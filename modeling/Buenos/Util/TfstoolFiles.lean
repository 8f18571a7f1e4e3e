/-
# Util.TfstoolFiles -- the tool and the kernel on one volume

The two programs read and write one format.  A kernel volume is `OnImage` when it has the
words of the image on its disk; then the consistency of `Fs.TfsImage` and the bytes of the
files are the same for both.

`tfstool_agrees` is the result: a file that the tool stores is what the kernel reads, the
other files read as before, and the tool reads what the kernel stored.  For the last the
names of the files have to be unique, since the tool, like the kernel, takes the first
entry with a name, and a file of negative size may list no blocks, since the tool takes the
size as it is declared (`Tidy`).
-/
import Buenos.Fs.TfsRuns
import Buenos.Util.TfstoolWrite

namespace Buenos.Util

open Buenos.Lib Buenos.Theory Buenos.Fs

set_option autoImplicit false

/-! ## Reading -/

/-- **The loop of `tfstool_read`** goes on to the end of the table. -/
theorem readLoop_image (order : ByteOrder) (inode : Bytes) {disk : HostFile} {filesize : Nat}
    (byte : Nat → Byte) (short : filesize < 0x80000000)
    (inside : ∀ b ∈ tableBlocks (content inode), b ≤ 4096 ∧ b < tfstoolNumblocks disk)
    (bytes : ∀ k, ∀ less : k < (tableBlocks (content inode)).length, ∀ p < 512,
      (imageOf disk (tableBlocks (content inode))[k]).byte p = byte (512 * k + p))
    (covered : filesize ≤ 512 * (tableBlocks (content inode)).length) (n : Nat) :
    ∀ (i : Nat) (data : Bytes), i + n = 127 → i ≤ (tableBlocks (content inode)).length →
      readLoop order inode filesize n i data ((List.range (min (512 * i) filesize)).map byte) disk =
        .returned (some ((List.range filesize).map byte), disk) := by
  induction n with
  | zero =>
      intro i data last within
      have most := tableBlocks_length_le (content inode)
      have all : min (512 * i) filesize = filesize := by omega
      rw [all]
      rfl
  | succ n ih =>
      intro i data last within
      have word : (ntohl order (hostWord order inode (directWord i))) =
          content inode (directWord i) :=
        ntohl_content order inode (by unfold directWord; omega)
      rw [readLoop, word]
      dsimp only
      by_cases ended : i = (tableBlocks (content inode)).length
      · have zero : content inode (directWord i) = 0 := by
          rw [ended]
          exact tableBlocks_ended (by omega)
        have all : min (512 * i) filesize = filesize := by omega
        rw [zero, if_neg (by decide), all]
        rfl
      · have less : i < (tableBlocks (content inode)).length := by omega
        have nonzero : (content inode (directWord i)).toNat ≠ 0 := fun zero =>
          tableBlocks_ne_zero less (BitVec.eq_of_toNat_eq zero)
        have number := tableBlocks_getElem less
        obtain ⟨small, onDisk⟩ := inside _ (List.getElem_mem less)
        obtain ⟨data', ran, held⟩ := readBlock_image disk _ data small onDisk
        rw [number] at ran
        rw [if_pos nonzero, Prog.bind_of_returned ran]
        dsimp only
        have moved : min (toUint32 ((filesize : Int) -
            ((List.range (min (512 * i) filesize)).map byte).length)) TFS_BLOCK_SIZE =
              min (512 * (i + 1)) filesize - min (512 * i) filesize := by
          rw [List.length_map, List.length_range]
          unfold toUint32 TFS_BLOCK_SIZE
          omega
        have joined : (List.range (min (512 * i) filesize)).map byte ++
            (List.range (min (512 * (i + 1)) filesize - min (512 * i) filesize)).map data' =
              (List.range (min (512 * (i + 1)) filesize)).map byte := by
          rw [show min (512 * (i + 1)) filesize = min (512 * i) filesize +
            (min (512 * (i + 1)) filesize - min (512 * i) filesize) by omega, List.range_add,
            List.map_append, List.map_map, Nat.add_sub_cancel_left]
          congr 1
          apply List.map_congr_left
          intro k mem
          have := List.mem_range.1 mem
          rw [Function.comp_apply, ← content_byte data' (by omega : k < 512), held,
            bytes i less k (by omega), show min (512 * i) filesize = 512 * i by omega]
        rw [moved, joined]
        exact ih (i + 1) data' (by omega) less

/-- The size that the tool reads is the kernel's, unless the kernel's is negative. -/
theorem toNat_of_fileSize {ino : Fs.Block} (nonneg : 0 ≤ fileSize ino) :
    (ino 0).toNat = (fileSize ino).toNat := by
  have less := (ino 0).isLt
  unfold fileSize at nonneg ⊢
  by_cases small : (ino 0).toNat < 0x80000000
  · rw [toInt32_eq (by omega) (by omega), Int.toNat_natCast]
  · rw [toInt32_wrap (by omega) (by omega)] at nonneg
    omega

/-- **`tfstool_read`** of the first file with its name gives the bytes of the file; a file
of negative size gives none, if it lists no blocks. -/
theorem tfstoolRead_image (order : ByteOrder) (masterDir inode data : Bytes) {disk : HostFile}
    {n j : Nat} (total : tfstoolNumblocks disk = n) (room : 3 ≤ n) (small : n ≤ 4096)
    (image : Image n (imageOf disk)) (used : Used (imageOf disk 2) j)
    (first : ∀ k < j, entryName (imageOf disk 2) k ≠ entryName (imageOf disk 2) j)
    (sized : 0 ≤ fileSize (imageOf disk (inodeOf (imageOf disk) j)) ∨
      tableBlocks (imageOf disk (inodeOf (imageOf disk) j)) = []) :
    tfstoolRead order masterDir inode data (entryName (imageOf disk 2) j) disk =
      .returned (some (fileBytes (imageOf disk) (inodeOf (imageOf disk) j)), disk) := by
  obtain ⟨masterDir, readDirectory, directory⟩ := readBlock_image disk
    TFS_DIRECTORY_BLOCK masterDir (by decide) (by rw [total]; exact room)
  change content masterDir = imageOf disk 2 at directory
  have inside := image.inode_inside used
  obtain ⟨inode, readInode, held⟩ := readBlock_image disk
    (inodeOf (imageOf disk) j) inode (by omega) (by omega)
  have short : (entryName (imageOf disk 2) j).length ≤ 15 :=
    Nat.le_of_lt_succ (image.terminated j used.1)
  have compare : ∀ k < 25, nameCompare masterDir k (entryName (imageOf disk 2) j) = 0 ↔
      entryName (imageOf disk 2) k = entryName (imageOf disk 2) j := by
    intro k less
    rw [nameCompare_eq_zero less short, directory]
  have found : (List.range TFS_MAX_FILES).find? (fun k =>
      decide (nameCompare masterDir k (entryName (imageOf disk 2) j) = 0)) = some j := by
    have less := used.1
    rw [List.find?_range_eq_some]
    refine ⟨decide_eq_true ((compare j less).2 rfl), List.mem_range.2 less, fun k before => ?_⟩
    rw [Bool.not_eq_true', decide_eq_false_iff_not, compare k (by omega)]
    exact first k before
  have number : (ntohl order (hostWord order masterDir (5 * j))).toNat =
      inodeOf (imageOf disk) j := by
    rw [ntohl_content order masterDir (by have := used.1; omega), directory]
    rfl
  have size : ntohl order (hostWord order inode 0) = content inode 0 :=
    ntohl_content order inode (by decide)
  rw [tfstoolRead, Prog.bind_of_returned readDirectory]
  dsimp only
  rw [found]
  dsimp only
  rw [number, Prog.bind_of_returned readInode]
  dsimp only
  rw [size]
  have listed : ∀ b ∈ tableBlocks (content inode), b ≤ 4096 ∧ b < tfstoolNumblocks disk := by
    intro b mem
    rw [held] at mem
    have := (image.owned (Image.table_mem used mem)).2
    omega
  by_cases nonneg : 0 ≤ fileSize (imageOf disk (inodeOf (imageOf disk) j))
  · have covered := image.covered j used
    have most := tableBlocks_length_le (imageOf disk (inodeOf (imageOf disk) j))
    have short : (content inode 0).toNat < 0x80000000 := by
      rw [held, toNat_of_fileSize nonneg]
      unfold blocksOf at covered
      omega
    have loop := readLoop_image order inode (fileByte (imageOf disk) (inodeOf (imageOf disk) j))
      short listed (by
        intro k less p bound
        rw [fileByte_place _ _ _ bound, tableBlocks_getElem less, held])
      (by
        rw [held, toNat_of_fileSize nonneg]
        unfold blocksOf at covered
        omega) 127 0 data rfl (Nat.zero_le _)
    rw [fileBytes, ← toNat_of_fileSize nonneg, ← held]
    exact loop
  · have empty := sized.resolve_left nonneg
    have zero : content inode (directWord 0) = 0 := by
      rw [held]
      have few : (tableBlocks (imageOf disk (inodeOf (imageOf disk) j))).length < 127 := by
        rw [empty]
        decide
      have ended := tableBlocks_ended few
      rwa [empty] at ended
    have word : ntohl order (hostWord order inode (directWord 0)) = content inode (directWord 0) :=
      ntohl_content order inode (by decide)
    have none : fileBytes (imageOf disk) (inodeOf (imageOf disk) j) = [] := by
      rw [fileBytes, Int.toNat_of_nonpos (by omega)]
      rfl
    rw [none, TFS_BLOCKS_MAX, show TFS_BLOCK_SIZE / 4 - 1 = 126 + 1 from rfl, readLoop, word, zero]
    rfl

/-! ## The two programs -/

/-- A kernel volume on a disk image, between calls. -/
structure OnImage (disk : HostFile) (s : Tfs) : Prop where
  ready : s.Ready
  free : 0 < s.lock
  total : tfstoolNumblocks disk = s.totalblocks
  agree : Agree s.totalblocks (imageOf disk) s.blocks

/-- Names are unique, and only files that have a size list blocks. -/
structure Tidy (blocks : Nat → Fs.Block) : Prop where
  names : Unique (blocks 2)
  sized : ∀ j, Used (blocks 2) j →
    0 ≤ fileSize (blocks (inodeOf blocks j)) ∨ tableBlocks (blocks (inodeOf blocks j)) = []

/-- A call of the kernel keeps an image tidy. -/
theorem Tidy.change {n : Nat} {blocks blocks' : Nat → Fs.Block} (small : n ≤ 4096)
    (image : Image n blocks) (tidy : Tidy blocks) (change : Change n blocks blocks') :
    Tidy blocks' where
  names := change.unique image tidy.names
  sized := by
    refine change.inodes small image (P := fun ino => 0 ≤ fileSize ino ∨ tableBlocks ino = [])
      ?_ tidy.sized
    intro filename size j p data created
    rw [created.size, created.stored.table, ← List.length_eq_zero_iff, created.count]
    unfold blocksOf
    omega

/-- What `tfs_open` answers. -/
def openReply (blocks : Nat → Fs.Block) (filename : Name) : Int :=
  (findEntry (blocks 2) filename).elim VFS_NOT_FOUND fun j => (inodeOf blocks j : Int)

section OnImage

variable {disk : HostFile} {n : Nat} (total : tfstoolNumblocks disk = n) (room : 3 ≤ n)
  (image : Image n (imageOf disk)) {s : Tfs} (on : OnImage disk s)

include total room image on

theorem OnImage.mounted : TfsMounted s where
  ready := on.ready
  free := on.free
  room := by rw [← on.total, total]; exact room
  image := by
    have agree := on.agree
    rw [← on.total, total] at agree ⊢
    exact agree.image room image

/-- The kernel finds the files of the image. -/
theorem OnImage.opened {filename : Name} (nonempty : filename ≠ []) :
    ∃ t, OnImage disk t ∧ tfsOpen filename s = .returned (openReply (imageOf disk) filename, t) := by
  have mounted := on.mounted total room image
  have agree := on.agree
  rw [← on.total, total] at agree
  have search : findEntry (s.blocks 2) filename = findEntry (imageOf disk 2) filename :=
    findEntry_congr fun k _ => by rw [agree.entryName room]
  obtain ⟨t, kept, opened⟩ :=
    tfsOpen_cases mounted.ready mounted.free mounted.room mounted.image nonempty
  have after : OnImage disk t :=
    { ready := (mounted.unchanged kept).ready
      free := (mounted.unchanged kept).free
      total := by rw [kept.same.totalblocks]; exact on.total
      agree := by
        rw [kept.same.totalblocks, kept.disk]
        exact on.agree }
  refine ⟨t, after, ?_⟩
  rcases opened with ⟨missing, ran⟩ | ⟨j, found, ran⟩
  · rw [ran, openReply, ← search, missing, Option.elim_none]
  · have used : Used (s.blocks 2) j :=
      ⟨(findEntry_some found).1, findEntry_used mounted.image.blanked nonempty found⟩
    rw [ran, openReply, ← search, found, Option.elim_some,
      agree.inodeOf room ((agree.used room j).1 used)]

/-- What the kernel reads of a file of the image. -/
theorem OnImage.read {j : Nat} (used : Used (imageOf disk 2) j) {fileid : CInt}
    (handle : fileid.val = inodeOf (imageOf disk) j) (m off : CInt) (nonneg : 0 ≤ m.val) :
    ∃ t, tfsRead fileid m off s = .returned
      (if 0 ≤ off.val ∧ off.val ≤ fileSize (imageOf disk (inodeOf (imageOf disk) j)) then
        (min m.val (fileSize (imageOf disk (inodeOf (imageOf disk) j)) - off.val),
          ((fileBytes (imageOf disk) (inodeOf (imageOf disk) j)).drop off.val.toNat).take
            m.val.toNat)
      else (VFS_ERROR, []), t) := by
  have mounted := on.mounted total room image
  have agree := on.agree
  rw [← on.total, total] at agree
  have used' := (agree.used room j).2 used
  have place := agree.inodeOf room used
  have file := mounted.image.fileAt used'
  obtain ⟨t, ran, -⟩ := tfsRead_cases mounted.ready mounted.free file
    (handle.trans (by rw [place])) m off nonneg
  refine ⟨t, ?_⟩
  rw [ran, place, agree.fileSize (image.inode_inside used).2, agree.fileBytes image used]

end OnImage

namespace Added

variable {n j p : Nat} {blocks blocks' : Nat → Fs.Block} {target : Name} {source : List Byte}
  {data : List Nat} (added : Added n blocks blocks' target source j p data)

include added

/-- The new file is found under its name. -/
theorem openReply_self (small : n ≤ 4096) : openReply blocks' target = (p : Int) := by
  have found : findEntry (blocks' 2) target = some j := by
    apply findEntry_eq added.stored.directory.inside added.stored.directory.name
    intro k less
    rw [added.stored.directory.names k (by have := added.stored.directory.inside; omega) (by omega)]
    exact added.absent k (by have := added.stored.directory.inside; omega)
  rw [openReply, found, Option.elim_some, added.stored.inode_self small]

/-- Other names are found as before. -/
theorem openReply_ne (image : Image n blocks) {filename : Name} (nonempty : filename ≠ []) (ne : filename ≠ target) :
    openReply blocks' filename = openReply blocks filename := by
  have search : findEntry (blocks' 2) filename = findEntry (blocks 2) filename := by
    apply findEntry_congr
    intro k inside
    by_cases same : k = j
    · rw [same, added.stored.directory.name,
        image.blanked j added.stored.directory.inside added.stored.free]
      exact ⟨fun h => absurd h.symm ne, fun h => absurd h.symm nonempty⟩
    · rw [added.stored.directory.names k inside same]
  rw [openReply, openReply, search]
  cases found : findEntry (blocks 2) filename with
  | none => rfl
  | some k =>
      have used : Used (blocks 2) k :=
        ⟨(findEntry_some found).1, findEntry_used image.blanked nonempty found⟩
      have other : k ≠ j := fun same => added.stored.not_used (same ▸ used)
      rw [Option.elim_some, Option.elim_some, added.stored.directory.inode_ne other used]

end Added

/-- In every run from a tidy image the volume stays mounted and tidy. -/
theorem onImage_runs {disk : HostFile} {n : Nat} (total : tfstoolNumblocks disk = n) (room : 3 ≤ n)
    (image : Image n (imageOf disk)) {s : Tfs}
    (run : (tfsSystem fun s => OnImage disk s ∧ Tidy s.blocks).ReachableWhen
      (fun s op => op.Named ∧ op.Permitted s) s) : TfsMounted s ∧ Tidy s.blocks :=
  tfs_runs (I := fun _ => Tidy) (fun _ ⟨on, tidy⟩ => ⟨on.mounted total room image, tidy⟩)
    (fun small image tidy change => tidy.change small image change) run

/-- **The tool and the kernel agree** on a consistent image.  A file that the tool stores is
what the kernel opens and reads, and the other files are opened and read as before; after
any run of the kernel the tool reads what the files hold. -/
theorem tfstool_agrees (order : ByteOrder) {disk : HostFile} {n : Nat}
    (total : tfstoolNumblocks disk = n) (room : 3 ≤ n) (small : n ≤ 4096)
    (image : Image n (imageOf disk)) :
    (∀ (masterDir bat data : Bytes) (source : List Byte) (target : Name) (disk' : HostFile),
      target ≠ [] → target.length ≤ 15 → source.length ≤ 65024 →
      tfstoolWrite order masterDir bat data source target disk = .returned (true, disk') →
      Image n (imageOf disk') ∧
      (∀ s', OnImage disk' s' → ∃ (i : Nat) (t : Tfs), tfsOpen target s' = .returned ((i : Int), t) ∧
        ∀ fileid m off : CInt, fileid.val = i → (source.length : Int) ≤ m.val → off.val = 0 →
          ∃ u, tfsRead fileid m off t = .returned (((source.length : Int), source), u)) ∧
      ∀ s s', OnImage disk s → OnImage disk' s' →
        (∀ filename : Name, filename ≠ [] → filename ≠ target → ∃ r t t',
          tfsOpen filename s = .returned (r, t) ∧ tfsOpen filename s' = .returned (r, t')) ∧
        ∀ fileid m off : CInt, Handle s.blocks fileid → 0 ≤ m.val → ∃ reply t t',
          tfsRead fileid m off s = .returned (reply, t) ∧
            tfsRead fileid m off s' = .returned (reply, t')) ∧
    ∀ s, (tfsSystem fun s => OnImage disk s ∧ Tidy s.blocks).ReachableWhen
        (fun s op => op.Named ∧ op.Permitted s) s →
      ∀ files, Holds s.blocks files → ∀ disk', OnImage disk' s →
        ∀ (masterDir inode data : Bytes) (i : Nat) (file : File), files i = some file →
          file.name ≠ [] →
            tfstoolRead order masterDir inode data file.name disk' =
              .returned (some file.bytes, disk') := by
  constructor
  · intro masterDir bat data source target disk' nonempty short most ran
    obtain ⟨total', j, p, new, added⟩ :=
      tfstoolWrite_added total room small image short most ran
    have image' := added.stored.image' image small
    refine ⟨image', fun s' on' => ?_, fun s s' on on' => ⟨fun filename named ne => ?_, ?_⟩⟩
    · obtain ⟨t, on, opened⟩ := on'.opened total' room image' nonempty
      rw [added.openReply_self small] at opened
      refine ⟨p, t, opened, fun fileid m off handle enough start => ?_⟩
      have place := added.stored.inode_self small
      obtain ⟨u, ran⟩ := on.read total' room image' (added.stored.used_self image small)
        (handle.trans (by rw [place])) m off (by omega)
      refine ⟨u, ?_⟩
      rw [ran, place, added.size, added.bytes, if_pos (by omega), start, Int.toNat_zero,
        List.drop_zero, List.take_of_length_le (by omega)]
      congr 3
      omega
    · obtain ⟨t, -, first⟩ := on.opened total room image named
      obtain ⟨t', -, second⟩ := on'.opened total' room image' named
      rw [added.openReply_ne image named ne] at second
      exact ⟨_, t, t', first, second⟩
    · rintro fileid m off ⟨k, used, handle⟩ nonneg
      have agree := on.agree
      rw [← on.total, total] at agree
      have used := (agree.used room k).1 used
      have other : k ≠ j := fun same => added.stored.not_used (same ▸ used)
      have used' := (added.stored.directory.used_ne other).2 used
      have place := added.stored.directory.inode_ne other used
      have kept : ∀ b ∈ slotBlocks (imageOf disk) k, imageOf disk' b = imageOf disk b :=
        fun b => added.stored.kept_owned image
      have inode := kept _ (Image.inode_mem used)
      have bytes := fileBytes_congr (image.covered k used) inode
        fun b mem => kept b (Image.table_mem used mem)
      rw [agree.inodeOf room used] at handle
      obtain ⟨t, first⟩ := on.read total room image used handle m off nonneg
      obtain ⟨t', second⟩ := on'.read total' room image' used' (handle.trans (by rw [place])) m off
        nonneg
      rw [place, inode, bytes] at second
      exact ⟨_, t, t', first, second⟩
  · intro s run files holds disk' on masterDir inode data i file at_ named
    obtain ⟨mounted, tidy⟩ := onImage_runs total room image run
    obtain ⟨j, used, rfl, rfl⟩ := (holds i file).1 at_
    have agree := on.agree.symm
    have image := agree.image mounted.room mounted.image
    have inside := (mounted.image.inode_inside used).2
    have used' := (agree.used mounted.room j).2 used
    have place := agree.inodeOf mounted.room used
    have names := agree.entryName mounted.room
    have first : ∀ k < j, entryName (imageOf disk' 2) k ≠ entryName (imageOf disk' 2) j := by
      intro k less same
      rw [names, names] at same
      have within : k < 25 := by
        have := used.1
        omega
      have usedK : Used (s.blocks 2) k := by
        refine ⟨within, fun unused => named ?_⟩
        change entryName (s.blocks 2) j = []
        rw [← same]
        exact mounted.image.blanked k within unused
      have := tidy.names k j usedK used same
      omega
    have ran := tfstoolRead_image order masterDir inode data on.total mounted.room
      mounted.ready.small image used' first (by
        rw [place, agree.fileSize inside, agree.tableBlocks inside]
        exact tidy.sized j used)
    rw [names, place, agree.fileBytes mounted.image used] at ran
    rw [fileOf_bytes]
    exact ran

/-! ## An image of five blocks -/

def fiveDisk : HostFile := newDisk .big (fun _ => 0) five

theorem image_fiveDisk : Image 5 (imageOf fiveDisk) := by
  obtain ⟨order, volumename, created⟩ := newVolume_fiveBlocks
  exact created.empty.mounted.image

/-- Whether a command of the tool ends with success. -/
def succeeded : Outcome (Bool × HostFile) → Bool
  | .returned (ok, _) => ok
  | .stopped _ => false

theorem of_succeeded {outcome : Outcome (Bool × HostFile)} (yes : succeeded outcome = true) :
    ∃ disk, outcome = .returned (true, disk) := by
  cases outcome with
  | returned result =>
      obtain ⟨ok, disk⟩ := result
      obtain rfl : ok = true := yes
      exact ⟨disk, rfl⟩
  | stopped why => cases yes

/-- The kernel's volume on that image. -/
theorem onImage_fiveBlocks : OnImage fiveDisk fiveBlocks where
  ready := Volume.ready_idle (by decide) _
  free := Int.one_pos
  total := by decide +kernel
  agree := fun _ _ _ _ => rfl

theorem tidy_fiveBlocks : Tidy fiveBlocks.blocks := by
  have empty : ∀ j, ¬ Used (fiveBlocks.blocks 2) j := by
    obtain ⟨order, volumename, created⟩ := newVolume_fiveBlocks
    exact created.empty.not_used
  exact ⟨fun j k used => absurd used (empty j), fun j used => absurd used (empty j)⟩

/-- The host's file with the blocks of a volume. -/
def diskOf (n : Nat) (blocks : Nat → Fs.Block) : HostFile where
  size := 512 * n
  byte k := (blocks (k / 512)).byte (k % 512)

theorem imageOf_diskOf {n b : Nat} (blocks : Nat → Fs.Block) (less : b < n) {i : Nat} (inside : i < 128) :
    imageOf (diskOf n blocks) b i = blocks b i := by
  have bytes : ∀ k < 512, (diskOf n blocks).get (512 * b + k) = (blocks b).byte k := by
    intro k within
    have block : (512 * b + k) / 512 = b := by omega
    have place : (512 * b + k) % 512 = k := by omega
    have size : 512 * b + k < 512 * n := by omega
    calc (diskOf n blocks).get (512 * b + k)
        = (blocks ((512 * b + k) / 512)).byte ((512 * b + k) % 512) := if_pos size
      _ = (blocks b).byte k := by rw [block, place]
  rw [imageOf, content_congr bytes, content, if_pos inside, Block.ofBytes_byte]

theorem onImage_diskOf {s : Tfs} (ready : s.Ready) (free : 0 < s.lock) :
    OnImage (diskOf s.totalblocks s.blocks) s where
  ready := ready
  free := free
  total := Nat.mul_div_cancel_left _ (by decide)
  agree := fun _ less _ inside => (imageOf_diskOf _ less inside).symm

/-- The tool stores a file of two bytes, and the kernel opens it as block 3. -/
theorem letter_stored :
    ∃ disk', tfstoolWrite .big (fun _ => 0) (fun _ => 0) (fun _ => 0) [1#8, 2#8] letter fiveDisk =
        .returned (true, disk') ∧
      ∃ t, tfsOpen letter (Volume.idle 5 (imageOf disk')) = .returned (3, t) := by
  have ran : (do
      let ok ← tfstoolWrite .big (fun _ => 0) (fun _ => 0) (fun _ => 0) [1#8, 2#8] letter
      let disk' ← Prog.gets id
      pure (ok, (tfsOpen letter).answer (Volume.idle 5 (imageOf disk'))) :
        Prog HostFile (Bool × Option Int)).answer fiveDisk = some (true, some 3) := by decide +kernel
  obtain ⟨_, ran⟩ := Prog.answer_eq_some.1 ran
  obtain ⟨ok, disk', stored, ran⟩ := Prog.bind_returned.1 ran
  simp only [Prog.bind_gets_apply, Prog.pure_apply, id_eq, Outcome.returned.injEq, Prod.mk.injEq] at ran
  obtain ⟨⟨rfl, opened⟩, -⟩ := ran
  exact ⟨disk', stored, Prog.answer_eq_some.1 opened⟩

/-- The kernel makes a file of five bytes and writes two of them. -/
theorem letter_written :
    ∃ s, (tfsSystem fun s => OnImage fiveDisk s ∧ Tidy s.blocks).ReachableWhen
        (fun s op => op.Named ∧ op.Permitted s) s ∧
      Used (s.blocks 2) 24 ∧ entryName (s.blocks 2) 24 = letter ∧
        fileBytes s.blocks (inodeOf s.blocks 24) = [0, 0x31, 0x32, 0, 0] := by
  have ran : (((tfsSystem fun s => OnImage fiveDisk s ∧ Tidy s.blocks).step fiveBlocks
        (.create letter ⟨5, by decide⟩)).bind fun s =>
      ((tfsSystem fun s => OnImage fiveDisk s ∧ Tidy s.blocks).step s
        (.write ⟨3, by decide⟩ digits ⟨2, by decide⟩ ⟨1, by decide⟩)).map fun t =>
          (s.blocks 2 120, t.blocks 2 120, entryName (t.blocks 2) 24, fileBytes t.blocks 3)) =
      some (3, 3, letter, [0, 0x31, 0x32, 0, 0]) := by decide +kernel
  obtain ⟨s, created, rest⟩ := Option.bind_eq_some_iff.1 ran
  obtain ⟨t, written, parts⟩ := Option.map_eq_some_iff.1 rest
  simp only [Prod.mk.injEq] at parts
  obtain ⟨entry, entry', name, bytes⟩ := parts
  have used (w : Tfs) (three : w.blocks 2 120 = 3) :
      Used (w.blocks 2) 24 ∧ inodeOf w.blocks 24 = 3 := by
    have place : entryInode (w.blocks 2) 24 = 3 := three
    exact ⟨⟨by decide, place ▸ by decide⟩, by rw [inodeOf, place]; rfl⟩
  obtain ⟨used₁, place₁⟩ := used s entry
  obtain ⟨used₂, place₂⟩ := used t entry'
  refine ⟨t, .step (.step (.start ⟨onImage_fiveBlocks, tidy_fiveBlocks⟩) ?_ created) ?_ written,
    used₂, name, by rw [place₂, bytes]⟩
  · exact ⟨⟨by decide, by decide⟩, trivial⟩
  · exact ⟨trivial, .inr ⟨⟨24, used₁, by rw [place₁]; rfl⟩, by decide⟩⟩

/-- A file of two bytes that the tool stores is opened and read by the kernel, and a file of five
that the kernel writes is read by the tool. -/
theorem tfstool_agrees_letter :
    (∃ disk', tfstoolWrite .big (fun _ => 0) (fun _ => 0) (fun _ => 0) [1#8, 2#8] letter fiveDisk =
        .returned (true, disk') ∧ Image 5 (imageOf disk') ∧
      ∃ t u, tfsOpen letter (Volume.idle 5 (imageOf disk')) = .returned (3, t) ∧
        tfsRead ⟨3, by decide⟩ ⟨9, by decide⟩ ⟨0, by decide⟩ t = .returned ((2, [1#8, 2#8]), u)) ∧
    ∃ s disk', OnImage disk' s ∧ tfstoolRead .big (fun _ => 0) (fun _ => 0) (fun _ => 0) letter disk' =
      .returned (some [0, 0x31, 0x32, 0, 0], disk') := by
  have total : tfstoolNumblocks fiveDisk = 5 := by decide +kernel
  obtain ⟨stores, reads⟩ := tfstool_agrees .big total (by decide) (by decide) image_fiveDisk
  constructor
  · obtain ⟨disk', stored, t, opened⟩ := letter_stored
    obtain ⟨total', -⟩ :=
      tfstoolWrite_added total (by decide) (by decide) image_fiveDisk (by decide) (by decide) stored
    obtain ⟨image, opens, -⟩ :=
      stores _ _ _ _ _ disk' (by decide) (by decide) (by decide) stored
    have on : OnImage disk' (Volume.idle 5 (imageOf disk')) :=
      { ready := Volume.ready_idle (by decide) _
        free := Int.one_pos
        total := total'
        agree := fun _ _ _ _ => rfl }
    obtain ⟨i, t', opened', read⟩ := opens _ on
    have same := opened.symm.trans opened'
    simp only [Outcome.returned.injEq, Prod.mk.injEq] at same
    obtain ⟨handle, rfl⟩ := same
    obtain ⟨u, ran⟩ := read ⟨3, by decide⟩ ⟨9, by decide⟩ ⟨0, by decide⟩ handle (by decide) rfl
    exact ⟨disk', stored, image, t, u, opened, ran⟩
  · obtain ⟨s, reached, used, name, bytes⟩ := letter_written
    obtain ⟨mounted, -⟩ := onImage_runs total (by decide) image_fiveDisk reached
    obtain ⟨files, holds⟩ := mounted.image.holds
    have on := onImage_diskOf mounted.ready mounted.free
    have ran := reads s reached files holds _ on (fun _ => 0) (fun _ => 0) (fun _ => 0)
      (inodeOf s.blocks 24) (fileOf s.blocks 24) ((holds _ _).2 ⟨24, used, rfl, rfl⟩)
    rw [fileOf_bytes, bytes, fileOf_name, name] at ran
    exact ⟨s, _, on, ran (List.cons_ne_nil _ _)⟩

end Buenos.Util
