/-
# Util.TfstoolDelete -- deleting a file, twice

`tfstool_delete` does on a disk image what `tfs_remove` does on a disk.  The two codes keep
words in different byte orders, compare names in different ways and free the blocks in a
different order; `delete_matches_remove` says that the bytes they leave are the same, on
every consistent image.

Both clear the same bits one after the other (`deleteBlocks_bits`), and of the entry both
clear the inode word and the first byte of the name (`content_clearedEntry`).
-/
import Buenos.Util.TfstoolFiles

namespace Buenos.Util

open Buenos.Lib Buenos.Theory Buenos.Fs

set_option autoImplicit false

/-! ## The command -/

/-- The bitmap after the loop of `tfstool_delete`: `n` entries of the inode left, entry `i`
next. -/
def deleteBlocks (order : ByteOrder) (inode : Bytes) : Nat → Nat → Bytes → Bytes
  | _, 0, bat => bat
  | i, n + 1, bat =>
      let bnum := (ntohl order (hostWord order inode (directWord i))).toNat
      if bnum ≠ 0 then deleteBlocks order inode (i + 1) n (bitmapSet order bat bnum false) else bat

/-- The directory without entry `index`. -/
def clearedEntry (order : ByteOrder) (masterDir : Bytes) (index : Nat) : Bytes := fun k =>
  if k = 20 * index + 4 then 0 else setHostWord order masterDir (5 * index) 0 k

/-- The tables are written: bitmap, directory. -/
def storeDeleted (order : ByteOrder) (masterDir bat inode : Bytes) (index inodeBn : Nat) :
    Prog HostFile Bool := do
  let bat := deleteBlocks order inode 0 TFS_BLOCKS_MAX bat
  let bat := bitmapSet order bat inodeBn false
  let written ← writeBlock bat TFS_ALLOCATION_BLOCK
  if written then writeBlock (clearedEntry order masterDir index) TFS_DIRECTORY_BLOCK
  else pure false

def tfstoolDelete (order : ByteOrder) (filename : Name) : Prog HostFile Bool := do
  let directory ← readBlock (fun _ => 0) TFS_DIRECTORY_BLOCK
  match directory with
  | none => pure false
  | some masterDir =>
      match (List.range TFS_MAX_FILES).find? fun i => nameCompare masterDir i filename = 0 with
      | none => pure false
      | some index => do
          let bitmap ← readBlock (fun _ => 0) TFS_ALLOCATION_BLOCK
          match bitmap with
          | none => pure false
          | some bat => do
              let inodeBn := (ntohl order (hostWord order masterDir (5 * index))).toNat
              let block ← readBlock (fun _ => 0) inodeBn
              match block with
              | none => pure false
              | some inode => storeDeleted order masterDir bat inode index inodeBn

/-! ## What it writes -/

section Writes

variable (order : ByteOrder)

/-- The loop clears the bits that the table lists. -/
theorem deleteBlocks_bits (inode : Bytes) (n : Nat) :
    ∀ (i : Nat) (bat : Bytes), i + n ≤ 127 →
      (∀ b ∈ tableFrom (content inode) i n, b < 4096) →
      ∀ b, Lib.bitmapGet (content (deleteBlocks order inode i n bat)) b = true ↔
        Lib.bitmapGet (content bat) b = true ∧ b ∉ tableFrom (content inode) i n := by
  induction n with
  | zero => intro i bat _ _ b; simp [deleteBlocks, tableFrom]
  | succ n ih =>
      intro i bat within small b
      have word : ntohl order (hostWord order inode (directWord i)) =
          content inode (directWord i) :=
        ntohl_content order inode (by unfold directWord; omega)
      rw [deleteBlocks, word]
      by_cases unused : content inode (directWord i) = 0
      · rw [tableFrom_stop _ unused, unused]
        simp
      · have split : tableFrom (content inode) i (n + 1) =
            (content inode (directWord i)).toNat :: tableFrom (content inode) (i + 1) n :=
          if_pos unused
        rw [split] at small ⊢
        have nonzero : (content inode (directWord i)).toNat ≠ 0 := fun zero =>
          unused (BitVec.eq_of_toNat_eq zero)
        have inside := small _ List.mem_cons_self
        rw [if_pos nonzero, ih (i + 1) _ (by omega)
          (fun c mem => small c (List.mem_cons_of_mem _ mem)) b,
          content_bitmapSet order bat inside, bitmapGet_bitmapSet, List.mem_cons, not_or]
        by_cases same : b = (content inode (directWord i)).toNat
        · simp [same]
        · simp [same]

/-- The tool clears the entry as the kernel does. -/
theorem content_clearedEntry (masterDir : Bytes) {index : Nat} (inside : index < 25) :
    ∀ i < 128, content (clearedEntry order masterDir index) i =
      clearEntry (content masterDir) index i := by
  have words : content (setHostWord order masterDir (5 * index) 0) =
      Function.update (content masterDir) (5 * index) 0 := by
    have zero : htonl order 0 = 0 := (ntohl_eq_zero order 0).2 rfl
    have set := content_setHostWord order masterDir (show 5 * index < 128 by omega) 0
    rwa [zero] at set
  intro i within
  apply Block.word_congr
  intro k place
  have less : k < 512 := by omega
  rw [content_byte _ less, clearEntry, byte_memcopy, ← words, content_byte _ less, clearedEntry]
  exact if_congr (by omega) rfl rfl

end Writes

/-- Words of a bitmap are given by their bits. -/
theorem word_of_bits {bits bits' : Lib.Bitmap} {i : Nat}
    (same : ∀ b, b / 32 = i → (Lib.bitmapGet bits b = true ↔ Lib.bitmapGet bits' b = true)) :
    bits i = bits' i := by
  apply BitVec.eq_of_getLsbD_eq
  intro j less
  have bit := same (32 * i + j) (by omega)
  unfold Lib.bitmapGet at bit
  rw [show (32 * i + j) / 32 = i by omega, show (32 * i + j) % 32 = j by omega] at bit
  exact Bool.eq_iff_iff.2 bit

/-- **`tfstool_delete`** of a file: the bits of its blocks and its entry are cleared, and
nothing else changes. -/
theorem tfstoolDelete_image (order : ByteOrder) {disk : HostFile} {n : Nat} (room : 3 ≤ n)
    (small : n ≤ 4096) (total : n ≤ tfstoolNumblocks disk) (image : Image n (imageOf disk))
    {filename : Name} (short : filename.length ≤ 15) {j : Nat}
    (found : findEntry (imageOf disk 2) filename = some j) (used : Used (imageOf disk 2) j) :
    ∃ disk', tfstoolDelete order filename disk = .returned (true, disk') ∧
      disk'.size = disk.size ∧
      (∀ k, 512 * tfstoolNumblocks disk ≤ k → disk'.get k = disk.get k) ∧
      (∀ b, Lib.bitmapGet (imageOf disk' 1) b = true ↔
        Lib.bitmapGet (imageOf disk 1) b = true ∧ b ∉ slotBlocks (imageOf disk) j) ∧
      (∀ i < 128, imageOf disk' 2 i = clearEntry (imageOf disk 2) j i) ∧
      ∀ b, b ≠ 1 → b ≠ 2 → imageOf disk' b = imageOf disk b := by
  have inside := used.1
  obtain ⟨low, high⟩ := image.inode_inside used
  obtain ⟨masterDir, readDirectory, directory⟩ := readBlock_image disk
    TFS_DIRECTORY_BLOCK (fun _ => 0) (by decide) (Nat.lt_of_lt_of_le room total)
  obtain ⟨bat, readBitmap, bitmap⟩ := readBlock_image disk
    TFS_ALLOCATION_BLOCK (fun _ => 0) (by decide) (Nat.lt_of_lt_of_le (Nat.lt_of_succ_lt room) total)
  change content masterDir = imageOf disk 2 at directory
  change content bat = imageOf disk 1 at bitmap
  have place : (ntohl order (hostWord order masterDir (5 * j))).toNat = inodeOf (imageOf disk) j := by
    rw [ntohl_content order masterDir (by omega), directory]
    rfl
  obtain ⟨inode, readInode, contents⟩ := readBlock_image disk (inodeOf (imageOf disk) j)
    (fun _ => 0) (by omega) (Nat.lt_of_lt_of_le high total)
  have search : (List.range TFS_MAX_FILES).find?
      (fun i => decide (nameCompare masterDir i filename = 0)) = some j := by
    obtain ⟨-, named, before⟩ := findEntry_some found
    rw [List.find?_range_eq_some]
    refine ⟨decide_eq_true ((nameCompare_eq_zero inside short).2 (by rw [directory, named])),
      List.mem_range.2 inside, fun k less => ?_⟩
    rw [Bool.not_eq_true', decide_eq_false_iff_not, nameCompare_eq_zero (by omega) short, directory]
    exact before k less
  let cleared := bitmapSet order (deleteBlocks order inode 0 TFS_BLOCKS_MAX bat)
    (inodeOf (imageOf disk) j) false
  have bits : ∀ b, Lib.bitmapGet (content cleared) b = true ↔
      Lib.bitmapGet (imageOf disk 1) b = true ∧ b ∉ slotBlocks (imageOf disk) j := by
    intro b
    have listed : ∀ c ∈ tableFrom (content inode) 0 127, c < 4096 := by
      intro c mem
      rw [contents] at mem
      exact Nat.lt_of_lt_of_le (image.owned (Image.table_mem used mem)).2 small
    have loop := deleteBlocks_bits order inode 127 0 bat (by decide) listed b
    rw [content_bitmapSet order _ (by omega), bitmapGet_bitmapSet, Image.slotBlocks_used used,
      List.mem_cons, not_or]
    rw [contents, bitmap] at loop
    by_cases same : b = inodeOf (imageOf disk) j
    · simp [same]
    · rw [if_neg same]
      simp only [same, not_false_eq_true, true_and]
      exact loop
  obtain ⟨disk₁, ran₁, size₁, written₁⟩ := writeBlock_image disk 1 cleared (by decide)
  obtain ⟨disk₂, ran₂, size₂, written₂⟩ :=
    writeBlock_image disk₁ 2 (clearedEntry order masterDir j) (by decide)
  have bound : 512 * 3 ≤ disk.size := by
    change n ≤ disk.size / 512 at total
    omega
  refine ⟨disk₂, ?_, by omega, ?_, ?_, ?_, ?_⟩
  · rw [tfstoolDelete, Prog.bind_of_returned readDirectory]
    dsimp only
    rw [search]
    dsimp only
    rw [Prog.bind_of_returned readBitmap]
    dsimp only
    rw [place, Prog.bind_of_returned readInode]
    dsimp only
    refine (Prog.bind_of_returned ran₁).trans ?_
    exact ran₂
  · intro k beyond
    have first := writeBlock_eq disk 1 cleared (by decide)
    have second := writeBlock_eq disk₁ 2 (clearedEntry order masterDir j) (by decide)
    obtain rfl := (Prod.mk.inj (Outcome.returned.inj (ran₁.symm.trans first))).2
    obtain rfl := (Prod.mk.inj (Outcome.returned.inj (ran₂.symm.trans second))).2
    rw [HostFile.get_write, if_neg (by omega), HostFile.get_write, if_neg (by omega)]
  · rw [written₂, Function.update_of_ne (by decide), written₁, Function.update_self]
    exact bits
  · rw [written₂, Function.update_self, ← directory]
    exact content_clearedEntry order masterDir inside
  · intro b notBitmap notDirectory
    rw [written₂, Function.update_of_ne notDirectory, written₁, Function.update_of_ne notBitmap]

/-! ## The kernel on the same image -/

/-- A volume, mounted from a disk that holds the image; of a larger disk the driver uses as
many blocks as the bitmap has bits. -/
structure OnDisk (disk : HostFile) (s : Tfs) : Prop where
  ready : s.Ready
  free : 0 < s.lock
  blocks : s.disk.totalBlocks = tfstoolNumblocks disk
  total : s.totalblocks = min (tfstoolNumblocks disk) (8 * TFS_BLOCK_SIZE)
  bytes : ∀ b < tfstoolNumblocks disk, ∀ k < 512, (s.blocks b).byte k = disk.get (512 * b + k)

/-- The image and the disk hold the same bytes, and the image is no longer or shorter and ends
as before. -/
structure SameBytes (before disk : HostFile) (s : Tfs) : Prop where
  size : disk.size = before.size
  bytes : ∀ b < tfstoolNumblocks before, ∀ k < 512, (s.blocks b).byte k = disk.get (512 * b + k)
  rest : ∀ k, 512 * tfstoolNumblocks before ≤ k → disk.get k = before.get k

theorem get_imageOf (disk : HostFile) (b : Nat) {k : Nat} (less : k < 512) :
    disk.get (512 * b + k) = (imageOf disk b).byte k :=
  (content_byte (fun k => disk.get (512 * b + k)) less).symm

theorem OnDisk.agree {disk : HostFile} {s : Tfs} (on : OnDisk disk s) :
    Agree (tfstoolNumblocks disk) (imageOf disk) s.blocks := by
  intro b less i inside
  apply Block.word_congr
  intro k place
  rw [on.bytes b less k (by omega), get_imageOf disk b (by omega)]

/-- **The two are the same transformation**: on every consistent image and for every file,
`tfstool_delete` and `tfs_remove` both succeed and leave the same bytes. -/
theorem delete_matches_remove (order : ByteOrder) {disk : HostFile} {s : Tfs}
    (room : 3 ≤ tfstoolNumblocks disk) (on : OnDisk disk s)
    (image : Image (min (tfstoolNumblocks disk) 4096) (imageOf disk)) {filename : Name}
    (nonempty : filename ≠ []) (short : filename.length ≤ 15)
    (exists_ : ∃ j, Used (imageOf disk 2) j ∧ entryName (imageOf disk 2) j = filename) :
    ∃ disk' t, tfstoolDelete order filename disk = .returned (true, disk') ∧
      tfsRemove filename s = .returned (VFS_OK, t) ∧ Volume.Same s t ∧
      SameBytes disk disk' t := by
  have total : s.totalblocks = min (tfstoolNumblocks disk) 4096 := on.total
  have room' : 3 ≤ min (tfstoolNumblocks disk) 4096 := by omega
  have agree := on.agree
  have within : Agree (min (tfstoolNumblocks disk) 4096) (imageOf disk) s.blocks :=
    fun b less => agree b (by omega)
  have image' : Image s.totalblocks s.blocks := by
    rw [total]
    exact within.image room' image
  -- both searches end at the first entry with the name, which is used
  obtain ⟨j, found⟩ : ∃ j, findEntry (imageOf disk 2) filename = some j := by
    obtain ⟨k, used, named⟩ := exists_
    cases found : findEntry (imageOf disk 2) filename with
    | none => exact absurd named (findEntry_none.1 found k used.1)
    | some j => exact ⟨j, rfl⟩
  have used : Used (imageOf disk 2) j :=
    ⟨(findEntry_some found).1, findEntry_used image.blanked nonempty found⟩
  have used' : Used (s.blocks 2) j := (within.used room' j).2 used
  have found' : findEntry (s.blocks 2) filename = some j := by
    rw [← found]
    exact findEntry_congr fun k _ => by rw [within.entryName room']
  obtain ⟨disk', deleted, size, rest, bits, entry, kept⟩ :=
    tfstoolDelete_image order room' (Nat.min_le_right _ _) (Nat.min_le_left _ _) image short found
      used
  obtain ⟨t, removed, same, bits', entry', kept'⟩ :=
    tfsRemove_found on.ready on.free (by rw [total]; exact room') image' found' used'
  have slots : slotBlocks s.blocks j = slotBlocks (imageOf disk) j := by
    rw [Image.slotBlocks_used used, Image.slotBlocks_used used', within.inodeOf room' used,
      within.tableBlocks (image.inode_inside used).2]
  refine ⟨disk', t, deleted, removed, same, size, fun b less k inside => ?_, rest⟩
  rw [get_imageOf disk' b inside]
  apply Block.byte_congr
  by_cases isBitmap : b = 1
  · rw [isBitmap]
    apply word_of_bits
    intro c place
    rw [bits' c, bits c, slots, within.bitmapGet room' (by omega)]
  · by_cases isDirectory : b = 2
    · rw [isDirectory, entry', entry _ (by omega)]
      apply Block.word_congr
      intro q place
      unfold clearEntry
      rw [byte_memcopy, byte_memcopy]
      refine if_congr Iff.rfl rfl (Block.byte_congr ?_)
      by_cases inode : q / 4 = 5 * j
      · rw [inode, Function.update_self, Function.update_self]
      · rw [Function.update_of_ne inode, Function.update_of_ne inode]
        exact agree 2 (by omega) _ (by omega)
    · rw [kept' b isBitmap isDirectory, kept b isBitmap isDirectory]
      exact agree b less _ (by omega)

/-- A file that the tool has stored is deleted by both. -/
theorem delete_matches_remove_letter :
    ∃ disk, tfstoolWrite .big (fun _ => 0) (fun _ => 0) (fun _ => 0) [1#8, 2#8] letter fiveDisk =
        .returned (true, disk) ∧
      ∃ disk' t, tfstoolDelete .big letter disk = .returned (true, disk') ∧
        tfsRemove letter (Volume.idle 5 (imageOf disk)) = .returned (VFS_OK, t) ∧
        SameBytes disk disk' t := by
  have total : tfstoolNumblocks fiveDisk = 5 := by decide +kernel
  have ran : succeeded (tfstoolWrite .big (fun _ => 0) (fun _ => 0) (fun _ => 0) [1#8, 2#8] letter
      fiveDisk) = true := by decide +kernel
  obtain ⟨disk, ran⟩ := of_succeeded ran
  obtain ⟨total', j, p, new, added⟩ := tfstoolWrite_added total (by decide) (by decide)
    image_fiveDisk (by decide) (by decide) ran
  have image := added.stored.image' image_fiveDisk (by decide)
  have used : Used (imageOf disk 2) j :=
    added.stored.used_self image_fiveDisk (by decide)
  have on : OnDisk disk (Volume.idle 5 (imageOf disk)) :=
    { ready := Volume.ready_idle (by decide) _
      free := Int.one_pos
      blocks := total'.symm
      total := by rw [total']; rfl
      bytes := fun b _ k less => (get_imageOf disk b less).symm }
  obtain ⟨disk', t, deleted, removed, -, same⟩ := delete_matches_remove .big
    (by rw [total']; decide) on (by rw [total']; exact image) (show letter ≠ [] by decide)
    (by decide) ⟨j, used, added.stored.directory.name⟩
  exact ⟨disk, ran, disk', t, deleted, removed, same⟩

end Buenos.Util
