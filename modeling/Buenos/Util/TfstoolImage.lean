/-
# Util.TfstoolImage -- the disk image as blocks

What the bytes of a disk image spell when they are read the kernel's way.  `content` is
the block that 512 bytes make up and `imageOf` does this for a whole image; reading,
writing and the bitmap of the tool are then the kernel's own, whatever the byte order of
the host (`ntohl_hostWord`, `content_setHostWord`).

`createvol_empty`: a volume that `tfstool_createvol` has made is an empty TFS volume.
-/
import Buenos.Fs.TfsFiles
import Buenos.Util.Tfstool

namespace Buenos.Util

open Buenos.Lib Buenos.Theory Buenos.Fs

set_option autoImplicit false

/-! ## Byte order -/

section Order

variable (order : ByteOrder) (data : Bytes)

/-- The value that the tool sees is the one that the kernel sees. -/
theorem ntohl_hostWord (i : Nat) : ntohl order (hostWord order data i) = Block.ofBytes data i := by
  cases order with
  | big => rfl
  | little =>
      obtain ⟨first, second, third, fourth⟩ := extract_append (data (4 * i + 3))
        (data (4 * i + 2)) (data (4 * i + 1)) (data (4 * i))
      simp only [ntohl, hostWord, ByteOrder.place, Nat.add_zero, first, second, third, fourth]
      rfl

theorem ntohl_eq_zero (w : Word) : ntohl order w = 0 ↔ w = 0 := by
  cases order with
  | big => rfl
  | little =>
      constructor
      · intro zero
        obtain ⟨first, second, third, fourth⟩ := extract_append (w.extractLsb' 0 8)
          (w.extractLsb' 8 8) (w.extractLsb' 16 8) (w.extractLsb' 24 8)
        simp only [ntohl] at zero
        rw [zero] at first second third fourth
        rw [← bytes_append w, ← first, ← second, ← third, ← fourth]
        decide
      · rintro rfl
        decide

/-- A value that the tool stores is the one that the kernel finds. -/
theorem ofBytes_setHostWord (i : Nat) (w : Word) :
    Block.ofBytes (setHostWord order data i (htonl order w)) =
      Function.update (Block.ofBytes data) i w := by
  funext k
  by_cases here : k = i
  · rw [here, Function.update_self]
    unfold Block.ofBytes setHostWord htonl
    rw [if_pos (by omega), if_pos (by omega), if_pos (by omega), if_pos (by omega),
      show 4 * i % 4 = 0 by omega, show (4 * i + 1) % 4 = 1 by omega,
      show (4 * i + 2) % 4 = 2 by omega, show (4 * i + 3) % 4 = 3 by omega]
    cases order with
    | big => exact bytes_append w
    | little =>
        obtain ⟨first, second, third, fourth⟩ := extract_append (w.extractLsb' 0 8)
          (w.extractLsb' 8 8) (w.extractLsb' 16 8) (w.extractLsb' 24 8)
        simp only [ntohl, ByteOrder.place, Nat.mul_zero, Nat.mul_one,
          show 8 * 2 = 16 from rfl, show 8 * 3 = 24 from rfl, first, second, third, fourth]
        exact bytes_append w
  · rw [Function.update_of_ne here]
    unfold Block.ofBytes setHostWord
    rw [if_neg (by omega), if_neg (by omega), if_neg (by omega), if_neg (by omega)]

end Order

/-! ## Blocks -/

/-- The block that 512 bytes make up. -/
def content (data : Bytes) : Fs.Block := fun i => if i < 128 then Block.ofBytes data i else 0

theorem content_congr {data data' : Bytes} (same : ∀ k < 512, data k = data' k) :
    content data = content data' := by
  funext i
  unfold content
  by_cases inside : i < 128
  · rw [if_pos inside, if_pos inside]
    unfold Block.ofBytes
    rw [same _ (by omega), same _ (by omega), same _ (by omega), same _ (by omega)]
  · rw [if_neg inside, if_neg inside]

theorem content_byte (data : Bytes) {k : Nat} (inside : k < 512) :
    (content data).byte k = data k := by
  rw [← Block.byte_ofBytes data k]
  apply Block.byte_congr
  exact if_pos (by omega)

theorem content_zeros : content (fun _ => 0) = fun _ => 0 := by
  funext i
  unfold content Block.ofBytes
  have word : (0#8 ++ 0#8 ++ 0#8 ++ 0#8 : Word) = 0 := by decide
  split
  · exact word
  · rfl

section Arrays

variable (order : ByteOrder) (data : Bytes)

theorem ntohl_content {i : Nat} (inside : i < 128) :
    ntohl order (hostWord order data i) = content data i := by
  rw [ntohl_hostWord]
  exact (if_pos inside).symm

theorem hostWord_eq_zero {i : Nat} (inside : i < 128) :
    hostWord order data i = 0 ↔ content data i = 0 := by
  rw [← ntohl_content order data inside, ntohl_eq_zero]

theorem content_setHostWord {i : Nat} (inside : i < 128) (w : Word) :
    content (setHostWord order data i (htonl order w)) = Function.update (content data) i w := by
  funext k
  unfold content
  rw [ofBytes_setHostWord]
  by_cases here : k = i
  · rw [here, Function.update_self, Function.update_self, if_pos inside]
  · rw [Function.update_of_ne here, Function.update_of_ne here]

theorem bitmapGet_content {pos : Nat} (inside : pos < 4096) :
    bitmapGet order data pos = Lib.bitmapGet (content data) pos := by
  unfold bitmapGet Lib.bitmapGet
  rw [ntohl_content order data (by omega)]

theorem content_bitmapSet {pos : Nat} (inside : pos < 4096) (value : Bool) :
    content (bitmapSet order data pos value) = Lib.bitmapSet (content data) pos value := by
  unfold bitmapSet
  dsimp only
  rw [content_setHostWord order data (by omega), ntohl_content order data (by omega)]
  funext k
  unfold Lib.bitmapSet
  by_cases here : k = pos / 32
  · rw [here, Function.update_self, if_pos rfl]
  · rw [Function.update_of_ne here, if_neg here]

end Arrays

/-! ## Images -/

/-- Byte `k` of a file; past its end it is zero. -/
def HostFile.get (file : HostFile) (k : Nat) : Byte := if k < file.size then file.byte k else 0

theorem HostFile.get_write (file : HostFile) (pos n : Nat) (data : Bytes) (k : Nat) :
    (file.write pos n data).get k =
      if pos ≤ k ∧ k < pos + n then data (k - pos) else file.get k := by
  unfold HostFile.get HostFile.write
  dsimp only
  by_cases written : pos ≤ k ∧ k < pos + n
  · simp only [if_pos written]
    rw [if_pos (by omega)]
  · simp only [if_neg written]
    by_cases inside : k < file.size
    · rw [if_pos (by omega), if_pos inside]
    · rw [if_neg inside, ite_self]

/-- The blocks of a disk image. -/
def imageOf (disk : HostFile) : Nat → Fs.Block := fun b => content fun k => disk.get (512 * b + k)

section Images

variable (disk : HostFile) (b : Nat)

theorem seekBlock_eq {b : Nat} (small : b ≤ 4096) : seekBlock b = some (512 * b) := by
  unfold seekBlock TFS_BLOCK_SIZE
  rw [if_neg (by omega), Nat.mul_comm]

/-- A block of the image is read whole. -/
theorem readBlock_image (data : Bytes) (small : b ≤ 4096) (inside : b < tfstoolNumblocks disk) :
    ∃ data', readBlock data b disk = .returned (some data', disk) ∧
      content data' = imageOf disk b := by
  have bound : 512 * (b + 1) ≤ disk.size := by
    change b < disk.size / 512 at inside
    omega
  refine ⟨fun k => if k < TFS_BLOCK_SIZE ∧ 512 * b + k < disk.size then disk.byte (512 * b + k)
    else data k, ?_, ?_⟩
  · simp only [readBlock, seekBlock_eq small]
  · apply content_congr
    intro k less
    rw [if_pos ⟨less, by omega⟩, HostFile.get, if_pos (by omega)]

/-- A write replaces one block. -/
theorem imageOf_write (data : Bytes) :
    imageOf (disk.write (512 * b) 512 data) = Function.update (imageOf disk) b (content data) := by
  funext x
  by_cases here : x = b
  · rw [here, Function.update_self]
    apply content_congr
    intro k less
    rw [HostFile.get_write, if_pos (by omega), Nat.add_sub_cancel_left]
  · rw [Function.update_of_ne here]
    apply content_congr
    intro k less
    rw [HostFile.get_write, if_neg (by omega)]

theorem writeBlock_eq (data : Bytes) (small : b ≤ 4096) :
    writeBlock data b disk = .returned (true, disk.write (512 * b) 512 data) := by
  simp only [writeBlock, seekBlock_eq small]
  rfl

theorem writeBlock_image (data : Bytes) (small : b ≤ 4096) :
    ∃ disk', writeBlock data b disk = .returned (true, disk') ∧
      disk'.size = max disk.size (512 * (b + 1)) ∧
      imageOf disk' = Function.update (imageOf disk) b (content data) :=
  ⟨_, writeBlock_eq disk b data small, rfl, imageOf_write disk b data⟩

theorem writeNulls_grow (n : Nat) :
    ∀ (i : Nat) (disk : HostFile), i + n ≤ 4096 → disk.size = 512 * i →
      ∃ disk', writeNulls i n disk = .returned (true, disk') ∧ disk'.size = 512 * (i + n) ∧
        ∀ x < i, imageOf disk' x = imageOf disk x := by
  induction n with
  | zero => exact fun i disk _ ends => ⟨disk, rfl, ends, fun _ _ => rfl⟩
  | succ n ih =>
      intro i disk small ends
      obtain ⟨disk₁, ran, ends₁, written⟩ :=
        writeBlock_image disk i (fun _ => 0) (by omega)
      obtain ⟨disk₂, ran', ends₂, kept⟩ := ih (i + 1) disk₁ (by omega) (by omega)
      refine ⟨disk₂, ?_, by rw [ends₂]; omega, fun x less => ?_⟩
      · rw [writeNulls]
        exact (Prog.bind_of_returned ran).trans ran'
      · rw [kept x (by omega), written, Function.update_of_ne (by omega)]

end Images

/-! ## Images that agree -/

/-- Two images have the same words in their first `n` blocks. -/
def Agree (n : Nat) (blocks blocks' : Nat → Fs.Block) : Prop :=
  ∀ b < n, ∀ i < 128, blocks' b i = blocks b i

theorem Agree.symm {n : Nat} {blocks blocks' : Nat → Fs.Block} (agree : Agree n blocks blocks') :
    Agree n blocks' blocks := fun b less i inside => (agree b less i inside).symm

theorem nameAt_agree {b c : Fs.Block} (pos : Nat) (same : ∀ i < 128, c i = b i) :
    nameAt c pos = nameAt b pos := by
  unfold nameAt
  congr 1
  apply List.map_congr_left
  intro k mem
  have := List.mem_range.1 mem
  exact Block.byte_congr (same _ (by omega))

theorem tableFrom_agree {ino ino' : Fs.Block} (same : ∀ i < 128, ino' i = ino i) (n : Nat) :
    ∀ i, i + n ≤ 127 → tableFrom ino' i n = tableFrom ino i n := by
  induction n with
  | zero => exact fun _ _ => rfl
  | succ n ih =>
      intro i inside
      rw [tableFrom, tableFrom, same (directWord i) (by unfold directWord; omega),
        ih (i + 1) (by omega)]

section Agree

variable {n : Nat} {blocks blocks' : Nat → Fs.Block} (agree : Agree n blocks blocks') {j b : Nat}

include agree

theorem Agree.bitmapGet (room : 3 ≤ n) {pos : Nat} (inside : pos < 4096) :
    Lib.bitmapGet (blocks' 1) pos = Lib.bitmapGet (blocks 1) pos := by
  unfold Lib.bitmapGet
  rw [agree 1 (by omega) _ (by omega)]

theorem Agree.marked (room : 3 ≤ n) (b : Nat) : Marked blocks' b ↔ Marked blocks b :=
  and_congr_right fun inside => by rw [agree.bitmapGet room inside]

theorem Agree.entryInode (room : 3 ≤ n) (inside : j < 25) :
    entryInode (blocks' 2) j = entryInode (blocks 2) j :=
  agree 2 (by omega) _ (by omega)

theorem Agree.entryName (room : 3 ≤ n) (j : Nat) :
    entryName (blocks' 2) j = entryName (blocks 2) j :=
  nameAt_agree _ (agree 2 (by omega))

theorem Agree.used (room : 3 ≤ n) (j : Nat) : Used (blocks' 2) j ↔ Used (blocks 2) j :=
  and_congr_right fun inside => by rw [agree.entryInode room inside]

theorem Agree.inodeOf (room : 3 ≤ n) (used : Used (blocks 2) j) :
    inodeOf blocks' j = inodeOf blocks j := by
  unfold Fs.inodeOf
  rw [agree.entryInode room used.1]

theorem Agree.tableBlocks (inside : b < n) : tableBlocks (blocks' b) = tableBlocks (blocks b) :=
  tableFrom_agree (agree b inside) 127 0 (by omega)

theorem Agree.fileSize (inside : b < n) : fileSize (blocks' b) = fileSize (blocks b) := by
  unfold Fs.fileSize
  rw [agree b inside 0 (by omega)]

end Agree

/-- **An image that agrees** with a consistent one is consistent. -/
theorem Agree.image {n : Nat} {blocks blocks' : Nat → Fs.Block} (agree : Agree n blocks blocks')
    (room : 3 ≤ n) (image : Image n blocks) : Image n blocks' := by
  have slots : slotBlocks blocks' = slotBlocks blocks := by
    funext j
    by_cases used : Used (blocks 2) j
    · rw [Image.slotBlocks_used used, Image.slotBlocks_used ((agree.used room j).2 used),
        agree.inodeOf room used, agree.tableBlocks (image.inode_inside used).2]
    · unfold slotBlocks
      rw [if_neg used, if_neg fun h => used ((agree.used room j).1 h)]
  exact
    { exact := by
        rw [slots]
        exact image.exact.congr (agree.marked room)
      inside := by
        rw [slots]
        exact image.inside
      covered := fun j used => by
        have used := (agree.used room j).1 used
        have inside := (image.inode_inside used).2
        rw [agree.inodeOf room used, agree.fileSize inside, agree.tableBlocks inside]
        exact image.covered j used
      blanked := fun j inside unused => by
        rw [agree.entryInode room inside] at unused
        rw [agree.entryName room]
        exact image.blanked j inside unused
      terminated := fun j inside => by
        rw [agree.entryName room]
        exact image.terminated j inside }

/-- Files are read the same on images that agree. -/
theorem Agree.fileBytes {n : Nat} {blocks blocks' : Nat → Fs.Block} (agree : Agree n blocks blocks')
    (image : Image n blocks) {j : Nat} (used : Used (blocks 2) j) :
    fileBytes blocks' (Fs.inodeOf blocks j) = fileBytes blocks (Fs.inodeOf blocks j) := by
  have inside := (image.inode_inside used).2
  unfold Fs.fileBytes
  rw [agree.fileSize inside]
  apply List.map_congr_left
  intro q mem
  have place : q / 512 < (Fs.tableBlocks (blocks (Fs.inodeOf blocks j))).length := by
    apply image.place used
    have := List.mem_range.1 mem
    unfold blocksOf
    omega
  have most := tableBlocks_length_le (blocks (Fs.inodeOf blocks j))
  unfold fileByte
  rw [agree _ inside _ (by unfold directWord; omega)]
  apply Block.byte_congr
  exact agree _ (image.owned (Image.table_mem used (tableBlocks_mem place))).2 _ (by omega)

/-! ## New volumes -/

/-- A volume on an image that `tfstool_createvol` has made. -/
structure CreatedBy (order : ByteOrder) (volumename : Bytes) (s : Tfs) : Prop where
  ready : s.Ready
  free : 0 < s.lock
  made : ∃ size : CInt, size.val = s.totalblocks ∧ ∃ before disk,
    tfstoolCreatevol order false size volumename before = .returned (true, disk) ∧
      Agree s.totalblocks (imageOf disk) s.blocks

/-- **The tool makes a volume** of the size asked for, with the system blocks marked and an
empty directory. -/
theorem tfstoolCreatevol_image (order : ByteOrder) (volumename : Bytes) (size : CInt)
    (before : HostFile) (least : 3 ≤ size.val) (most : size.val ≤ 4096) :
    ∃ disk, tfstoolCreatevol order false size volumename before = .returned (true, disk) ∧
      (disk.size : Int) = 512 * size.val ∧
      (∀ b < 4096, Lib.bitmapGet (imageOf disk 1) b = true ↔ b < 3) ∧
      imageOf disk 2 = fun _ => 0 := by
  let allocation := bitmapSet order (bitmapSet order (bitmapSet order (fun _ => 0)
    TFS_HEADER_BLOCK true) TFS_ALLOCATION_BLOCK true) TFS_DIRECTORY_BLOCK true
  obtain ⟨disk₀, ran₀, ends₀, -⟩ := writeBlock_image ⟨0, fun _ => 0⟩ 0
    (fun k => if 4 ≤ k ∧ k < 4 + TFS_VOLUMENAME_MAX then volumename (k - 4)
      else setHostWord order (fun _ => 0) 0 (htonl order (BitVec.ofNat 32 TFS_MAGIC)) k)
    (by decide)
  obtain ⟨disk₁, ran₁, ends₁, bitmap⟩ :=
    writeBlock_image disk₀ 1 allocation (by decide)
  obtain ⟨disk₂, ran₂, ends₂, directory⟩ :=
    writeBlock_image disk₁ 2 (fun _ => 0) (by decide)
  have small₀ : disk₀.size = 512 := ends₀
  obtain ⟨disk, ran, ends, kept⟩ :=
    writeNulls_grow (size.val - 3).toNat 3 disk₂ (by omega) (by omega)
  refine ⟨disk, ?_, by rw [ends]; omega, ?_, ?_⟩
  · unfold tfstoolCreatevol
    rw [if_neg (by decide), if_neg (by omega), Prog.bind_modify_apply]
    refine (Prog.bind_of_returned ran₀).trans ?_
    refine (Prog.bind_of_returned ran₁).trans ?_
    refine (Prog.bind_of_returned ran₂).trans ?_
    exact ran
  · intro b inside
    rw [kept 1 (by omega), directory, Function.update_of_ne (by decide), bitmap,
      Function.update_self]
    rw [content_bitmapSet order _ (by decide), content_bitmapSet order _ (by decide),
      content_bitmapSet order _ (by decide), bitmapGet_bitmapSet, bitmapGet_bitmapSet,
      bitmapGet_bitmapSet, content_zeros]
    simp only [Lib.bitmapGet, TFS_HEADER_BLOCK, TFS_ALLOCATION_BLOCK, TFS_DIRECTORY_BLOCK]
    grind
  · rw [kept 2 (by omega), directory, Function.update_self, content_zeros]

/-- **A new volume is empty.** -/
theorem CreatedBy.empty {order : ByteOrder} {volumename : Bytes} {s : Tfs}
    (created : CreatedBy order volumename s) : Empty s := by
  obtain ⟨ready, free, size, blocks, before, disk, ran, agree⟩ := created
  have small := ready.small
  have room : 3 ≤ size.val := by
    by_contra less
    rw [tfstoolCreatevol, if_neg (by decide), if_pos (by omega)] at ran
    cases ran
  obtain ⟨disk', ran', -, bitmap, directory⟩ :=
    tfstoolCreatevol_image order volumename size before room (by omega)
  rw [ran] at ran'
  obtain rfl : disk = disk' := by
    cases ran'
    rfl
  have room : 3 ≤ s.totalblocks := by omega
  refine ⟨ready, free, room, ?_, ?_⟩
  · intro b inside
    rw [agree.bitmapGet room inside]
    exact bitmap b inside
  · intro j inside
    rw [agree.entryInode room inside, agree.entryName room, directory]
    exact ⟨rfl, nameAt_nil (by omega) (Block.byte_zero _)⟩

/-- The image that the tool makes. -/
def newDisk (order : ByteOrder) (volumename : Bytes) (size : CInt) : HostFile :=
  match tfstoolCreatevol order false size volumename ⟨0, fun _ => 0⟩ with
  | .returned (_, disk) => disk
  | .stopped _ => ⟨0, fun _ => 0⟩

/-- The image on a disk of its own. -/
def newVolume (order : ByteOrder) (volumename : Bytes) (size : CInt) : Tfs where
  disk :=
    { blocks := imageOf (newDisk order volumename size)
      totalBlocks := size.val.toNat
      answers := fun _ => true
      asked := 0
      served := [] }
  totalblocks := size.val.toNat
  lock := 1
  buffer := fun _ _ => 0
  refused := 0

theorem newVolume_created (order : ByteOrder) (volumename : Bytes) {size : CInt}
    (least : 3 ≤ size.val) (most : size.val ≤ 4096) :
    CreatedBy order volumename (newVolume order volumename size) where
  ready :=
    { answers := fun _ => rfl
      fits := Nat.le_refl _
      small := show size.val.toNat ≤ 4096 by omega }
  free := Int.one_pos
  made := by
    obtain ⟨disk, ran, -⟩ := tfstoolCreatevol_image order volumename size ⟨0, fun _ => 0⟩ least most
    have made : newDisk order volumename size = disk := by rw [newDisk, ran]
    refine ⟨size, (Int.toNat_of_nonneg (by omega)).symm, ⟨0, fun _ => 0⟩, disk, ran, ?_⟩
    intro b _ i _
    change imageOf (newDisk order volumename size) b i = _
    rw [made]

end Buenos.Util
