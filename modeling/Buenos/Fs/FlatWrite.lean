/-
# Fs.FlatWrite -- writing to a FlatFS file

A write past the end of a file grows it first.  `flatfs_write` takes the first block of an
empty file and the double-indirect block itself, and an error there is one of the call.  The
rest is left to `flatfs_alloc_blocks`, whose result it does not look at: when that runs out
of blocks the loop goes on with half updated buffers, and a call that returns reports the
bytes it wrote, wherever they went (`flatfsWrite_full_iff`).

With enough free blocks a write is what it should be: the file has grown, and only its own
blocks and the bitmap have changed (`FlatWritten`).
-/
import Buenos.Fs.FlatCreate
import Buenos.Fs.DiskLog

namespace Buenos.Fs

open Buenos.Lib Buenos.Theory

set_option autoImplicit false

/-! ## The part of the file that is written -/

/-- The blocks of a file that ends with the last byte of the write. -/
def writeEnd (datasize offset : CInt) : Nat := blocksOf (offset.val + datasize.val).toNat

/-- The double-indirect block is new. -/
def NewDouble (ino : Block) (datasize offset : CInt) : Prop :=
  flatCount ino ≤ 135 ∧ 135 < writeEnd datasize offset

instance (ino : Block) (datasize offset : CInt) : Decidable (NewDouble ino datasize offset) :=
  inferInstanceAs (Decidable (_ ∧ _))

/-- The blocks that a write needs: data, tables and the double-indirect block. -/
def writeNeed (ino : Block) (datasize offset : CInt) : Nat :=
  (writeEnd datasize offset - flatCount ino) +
    (tables (writeEnd datasize offset) - tables (flatCount ino)) +
    if NewDouble ino datasize offset then 1 else 0

/-- Those that `flatfs_write` takes itself. -/
def writeFirst (ino : Block) (datasize offset : CInt) : Nat :=
  (if flatCount ino = 0 then 1 else 0) + if NewDouble ino datasize offset then 1 else 0

/-- A write that needs blocks grows the file. -/
theorem grows_of_need {ino : Block} {datasize offset : CInt}
    (need : 0 < writeNeed ino datasize offset) :
    flatCount ino < writeEnd datasize offset := by
  by_contra fits
  have mono := tables_mono (Nat.le_of_not_lt fits)
  unfold writeNeed at need
  rw [if_neg fun new => fits (by unfold NewDouble at new; omega)] at need
  omega

/-- `b1` and `b2` of the source. -/
def firstBlock (offset : CInt) : Nat := (offset.val.tdiv FLATFS_BLOCK_SIZE).toNat

def finalBlock (datasize offset : CInt) : Nat :=
  toUint32 ((toInt32 (offset.val + datasize.val - 1)).tdiv FLATFS_BLOCK_SIZE)

/-- A write of some bytes that starts inside the file or at its end. -/
structure WriteInside (ino : Block) (datasize offset : CInt) : Prop where
  some : 0 < datasize.val
  low : 0 ≤ offset.val
  high : offset.val ≤ fileSize ino
  bound : flatCount ino ≤ FLATFS_MAX_BLOCKS

namespace WriteInside

variable {ino : Block} {datasize offset : CInt} (inside : WriteInside ino datasize offset)

include inside

theorem size : fileSize ino = (ino 0).toNat ∧ (ino 0).toNat ≤ 8457728 := by
  have low := inside.low
  have high := inside.high
  have bound := inside.bound
  have limit := (ino 0).isLt
  unfold FLATFS_MAX_BLOCKS FLATFS_BLOCKS_DIRECT FLATFS_BLOCKS_SINDIR FLATFS_BLOCKS_DINDIR at bound
  unfold flatCount blocksOf fileSize at *
  by_cases positive : (ino 0).toNat < 0x80000000
  · rw [toInt32_eq (by omega) (by omega)] at *
    omega
  · rw [toInt32_wrap (by omega) (by omega)] at high
    omega

theorem count : flatCount ino = blocksOf (ino 0).toNat := by
  unfold flatCount
  rw [inside.size.1, Int.toNat_natCast]

theorem zero : (ino 0).toNat = 0 ↔ flatCount ino = 0 := by
  rw [inside.count, blocksOf]
  omega

theorem last : lastBlock (ino 0).toNat = flatCount ino - 1 := by
  have small := inside.size.2
  rw [inside.count, lastBlock, blocksOf]
  unfold toUint32 FLATFS_BLOCK_SIZE
  split <;> omega

theorem positive : 0 < writeEnd datasize offset := by
  have some := inside.some
  have low := inside.low
  unfold writeEnd blocksOf
  omega

/-- The last block written; past the longest file it may have wrapped. -/
theorem final : finalBlock datasize offset + 1 = writeEnd datasize offset ∨
    FLATFS_MAX_BLOCKS < writeEnd datasize offset ∧
      FLATFS_MAX_BLOCKS ≤ finalBlock datasize offset := by
  have some := inside.some
  have low := inside.low
  have high := inside.high
  obtain ⟨size, small⟩ := inside.size
  have range := datasize.property
  change finalBlock datasize offset + 1 = writeEnd datasize offset ∨
    16519 < writeEnd datasize offset ∧ 16519 ≤ finalBlock datasize offset
  change toUint32 ((toInt32 (offset.val + datasize.val - 1)).tdiv 512) + 1 = _ ∨
    _ ∧ 16519 ≤ toUint32 ((toInt32 (offset.val + datasize.val - 1)).tdiv 512)
  unfold writeEnd blocksOf toUint32
  by_cases fits : offset.val + datasize.val - 1 < 0x80000000
  · left
    rw [toInt32_eq (by omega) fits, tdiv_block, if_pos (by omega)]
    omega
  · right
    rw [toInt32_wrap (by omega) (by omega), tdiv_block, if_neg (by omega)]
    omega

/-- The test for a new double-indirect block. -/
theorem newDouble_iff :
    (FLATFS_BLOCKS_DIRECT + FLATFS_BLOCKS_SINDIR ≤ finalBlock datasize offset ∧
        lastBlock (ino 0).toNat < FLATFS_BLOCKS_DIRECT + FLATFS_BLOCKS_SINDIR) ↔
      NewDouble ino datasize offset := by
  have final := inside.final
  rw [inside.last]
  unfold NewDouble
  unfold FLATFS_MAX_BLOCKS FLATFS_BLOCKS_DIRECT FLATFS_BLOCKS_SINDIR FLATFS_BLOCKS_DINDIR at *
  omega

/-- The file has to grow. -/
theorem grows_iff :
    (lastBlock (ino 0).toNat < finalBlock datasize offset ∨ (ino 0).toNat = 0) ↔
      flatCount ino < writeEnd datasize offset := by
  have final := inside.final
  have positive := inside.positive
  have bound := inside.bound
  rw [inside.last, inside.zero]
  omega

end WriteInside

/-- `flatfs_write` once the file has grown, or an allocation has failed. -/
def writeRest (fileid : Word) (buffer : Nat → Byte) (datasize offset : CInt) (grown : Bool) :
    Prog Flat Int :=
  if grown then do
    let _ ← flatfsGetblock (firstBlock offset) 0
    let result ← writeLoop (firstBlock offset) (finalBlock datasize offset) buffer datasize.val
      offset.val (finalBlock datasize offset + 1 - firstBlock offset) (firstBlock offset) 0
    match result with
    | some written => writeSize fileid (toUint32 (offset.val + datasize.val)) written
    | none => unlock VFS_ERROR
  else unlock VFS_ERROR

namespace Volume

variable {s t u v w : Flat} {j : Nat} {datasize offset : CInt}

/-- `loadDouble` reads in the double-indirect block of a file that has one. -/
theorem loadDouble_cases (ready : s.Ready) (image : FlatImage s.totalblocks s.blocks)
    (used : Used (s.blocks 2) j) (inode : s.buffer .inode = s.blocks (inodeOf s.blocks j)) :
    ∃ t, loadDouble s = .returned (true, t) ∧ Volume.Same s t ∧ t.blocks = s.blocks ∧
      t.buffer .inode = s.buffer .inode ∧ t.refused = s.refused ∧ t.Fetched j := by
  have file := image.file j used
  rw [← inode] at file
  by_cases large : 135 < flatCount (s.buffer .inode)
  · have mem : (s.buffer .inode dblIndirWord).toNat ∈ flatParts s.blocks (s.buffer .inode) :=
      double_mem_parts large
    rw [inode] at mem
    obtain ⟨above, within, -⟩ := image.owned (FlatImage.part_mem used mem)
    rw [← inode] at above within
    refine ⟨s.didRead (s.buffer .inode dblIndirWord).toNat .di, ?_, .didRead _ _, rfl, ?_, rfl, ?_⟩
    · rw [loadDouble, Prog.bind_gets_apply, if_pos (by omega)]
      exact readBlock_ready ready FlatBuffer.di within
    · simp
    · exact ⟨used, by simpa using inode, fun _ => by simp [flatDi]⟩
  · refine ⟨s, ?_, .refl s, rfl, rfl, rfl, used, inode, fun long => absurd long large⟩
    rw [loadDouble, Prog.bind_gets_apply, file.double (by omega), if_neg (by decide)]
    rfl

end Volume

/-! ## Growing before the loop -/

/-- The allocations that `flatfs_write` leaves to `flatfs_alloc_blocks`. -/
def growRest (b2 last : Nat) : Prog Flat Bool :=
  if last < b2 then do
    let _ ← flatfsAllocBlocks (b2 - last) (last + 1)
    pure true
  else storeBat

namespace Volume

variable {s t u v w : Flat} {datasize offset : CInt}

section Grow

variable (ready : s.Ready) (room : 3 ≤ s.totalblocks)
  (inside : WriteInside (s.buffer .inode) datasize offset)

include inside

theorem writeGrow_none (fits : ¬ flatCount (s.buffer .inode) < writeEnd datasize offset) :
    writeGrow (finalBlock datasize offset) s = .returned (true, s) := by
  rw [writeGrow, Prog.bind_gets_apply, if_neg fun more => fits (inside.grows_iff.1 more)]
  rfl

include ready room

/-- **The first allocations** are met, or one of them is refused and nothing has been stored. -/
theorem writeGrow_cases (more : flatCount (s.buffer .inode) < writeEnd datasize offset) :
    (∃ t, writeGrow (finalBlock datasize offset) s = .returned (false, t) ∧
        free (s.blocks 1) s.totalblocks < writeFirst (s.buffer .inode) datasize offset ∧
        Refused (s.didRead 1 .bat) t []) ∨
      ∃ t u first dbl, writeGrow (finalBlock datasize offset) s =
          growRest (finalBlock datasize offset) (flatCount (s.buffer .inode) - 1) u ∧
        writeFirst (s.buffer .inode) datasize offset ≤ free (s.blocks 1) s.totalblocks ∧
        (first.length = if flatCount (s.buffer .inode) = 0 then 1 else 0) ∧
        Filled (s.didRead 1 .bat) t .inode (directWord 0) first ∧
        (flatCount (s.buffer .inode) ≠ 0 → t = s.didRead 1 .bat) ∧
        (dbl.length = if NewDouble (s.buffer .inode) datasize offset then 1 else 0) ∧
        Filled t u .inode dblIndirWord dbl ∧
        (¬ NewDouble (s.buffer .inode) datasize offset → u = t) := by
  have loaded := readBat ready room
  have roomEq : (s.didRead 1 FlatBuffer.bat).room = free (s.blocks 1) s.totalblocks := by
    simp [Volume.room]
  have sizeZero := if_congr inside.zero (rfl : 1 = 1) (rfl : 0 = 0)
  have doubleNew := if_congr inside.newDouble_iff (rfl : 1 = 1) (rfl : 0 = 0)
  rw [writeGrow, Prog.bind_gets_apply, if_pos (inside.grows_iff.2 more),
    Prog.bind_of_returned loaded]
  simp only [if_true, Prog.ite_bind]
  rcases allocOne_cases (ready.same (.didRead 1 .bat)) ((s.buffer .inode 0).toNat = 0)
    (directWord 0) with ⟨t, first, ran, count, filled, none⟩ | ⟨t, ran, need, full, refused⟩
  · rw [sizeZero] at count
    have room' := filled.took.room
    rcases allocOne_cases ((ready.same (.didRead 1 FlatBuffer.bat)).same filled.took.same)
      (FLATFS_BLOCKS_DIRECT + FLATFS_BLOCKS_SINDIR ≤ finalBlock datasize offset ∧
        lastBlock (s.buffer .inode 0).toNat < FLATFS_BLOCKS_DIRECT + FLATFS_BLOCKS_SINDIR)
      dblIndirWord with ⟨u, dbl, ran', count', filled', none'⟩ | ⟨u, ran', need, full, refused⟩
    · right
      rw [doubleNew] at count'
      have room'' := filled'.took.room
      rw [inside.zero] at none
      rw [inside.newDouble_iff] at none'
      refine ⟨t, u, first, dbl, ?_, ?_, count, filled, none, count', filled', none'⟩
      · rw [Prog.bind_of_returned ran, if_pos rfl, Prog.bind_of_returned ran', if_pos rfl,
          growRest, ← inside.last]
      · unfold writeFirst
        omega
    · left
      have new := inside.newDouble_iff.1 need
      refine ⟨u, ?_, ?_, Refused.after filled.took (fun b marked _ => ?_) refused⟩
      · rw [Prog.bind_of_returned ran, if_pos rfl, Prog.bind_of_returned ran']
        rfl
      · unfold writeFirst
        rw [if_pos new]
        omega
      · exact filled.kept b (filled.took.not_marked marked)
  · left
    refine ⟨t, ?_, ?_, refused⟩
    · rw [Prog.bind_of_returned ran]
      rfl
    · unfold writeFirst
      rw [if_pos (inside.zero.1 need)]
      omega

end Grow

/-! ## A call that returns -/

/-- When all requests are served, the loop does not fail. -/
theorem writeLoop_ran (b1 b2 : Nat) (buffer : Nat → Byte) (datasize offset : Int)
    (nonneg : 0 ≤ datasize) (n : Nat) :
    ∀ (b : Nat) (written : Int) (s : Flat), s.Ready → 0 ≤ written →
      (writeLoop b1 b2 buffer datasize offset n b written).Keeps s fun result _ =>
        ∃ bytes, result = some bytes ∧ 0 ≤ bytes := by
  induction n with
  | zero => exact fun _ written _ _ here => .pure ⟨written, rfl, here⟩
  | succ n ih =>
      intro b written s ready here
      have stored : ∀ (block : Word) (content : Flat → Block) (bytes : Int) (t : Flat), t.Ready →
          0 ≤ bytes → Prog.Keeps (do
            Prog.modify fun s : Flat => s.setBuffer .bat (content s)
            let stored ← writeBuffer block .bat
            if stored then writeLoop b1 b2 buffer datasize offset n (b + 1) bytes
            else pure none) t fun result _ => ∃ bytes, result = some bytes ∧ 0 ≤ bytes := by
        intro block content bytes t ready here a v ran
        rw [Prog.bind_modify_apply] at ran
        obtain ⟨done, u, ran₁, ran₂⟩ := Prog.bind_returned.1 ran
        have edited := ready.same (.setBuffer .bat (content t))
        obtain ⟨rfl, rfl⟩ := writeBuffer_ran edited ran₁
        exact ih (b + 1) bytes _ (edited.same (.didWrite _ _)) here a v ran₂
      have loaded : ∀ (block : Word) (content : Flat → Block) (bytes : Int) (t : Flat), t.Ready →
          0 ≤ bytes → Prog.Keeps (do
            let loaded ← readBlock block .bat
            if loaded then do
              Prog.modify fun s : Flat => s.setBuffer .bat (content s)
              let stored ← writeBuffer block .bat
              if stored then writeLoop b1 b2 buffer datasize offset n (b + 1) bytes
              else pure none
            else pure none) t fun result _ => ∃ bytes, result = some bytes ∧ 0 ≤ bytes := by
        intro block content bytes t ready here a v ran
        obtain ⟨done, u, ran₁, ran₂⟩ := Prog.bind_returned.1 ran
        obtain ⟨rfl, rfl⟩ := readBlock_ran ready ran₁
        exact stored block content bytes _ (ready.same (.didRead _ _)) here a v ran₂
      intro a v ran
      rw [writeLoop] at ran
      obtain ⟨block, t, ran₁, ran₂⟩ := Prog.bind_returned.1 ran
      have ready' := ready.same (flatfsGetblock_logs _ _ s block t ran₁).same
      by_cases first : b = b1
      · rw [if_pos first] at ran₂
        refine loaded block _ _ t ready' ?_ a v ran₂
        unfold FLATFS_BLOCK_SIZE
        omega
      · rw [if_neg first] at ran₂
        by_cases last : b = b2
        · rw [if_pos last] at ran₂
          exact loaded block _ _ t ready' nonneg a v ran₂
        · rw [if_neg last] at ran₂
          refine stored block _ _ t ready' ?_ a v ran₂
          unfold FLATFS_BLOCK_SIZE
          omega

/-- What `flatfs_alloc_blocks` answers does not matter. -/
theorem growRest_ran (ready : s.Ready) {b2 last : Nat} {a : Bool}
    (ran : growRest b2 last s = .returned (a, t)) : a = true ∧ Volume.Same s t := by
  unfold growRest at ran
  split at ran
  · obtain ⟨done, u, ran₁, ran₂⟩ := Prog.bind_returned.1 ran
    cases ran₂
    exact ⟨rfl, (flatfsAllocBlocks_logs _ _ s done t ran₁).same⟩
  · obtain ⟨rfl, rfl⟩ := writeBuffer_ran ready ran
    exact ⟨rfl, .didWrite _ _⟩

/-- So a call that has got past its own allocations reports no error. -/
theorem writeRest_ran {fileid : Word} {buffer : Nat → Byte} (ready : s.Ready)
    (nonneg : 0 ≤ datasize.val) :
    (writeRest fileid buffer datasize offset true).Keeps s fun result _ => 0 ≤ result := by
  intro a v ran
  rw [writeRest, if_pos rfl] at ran
  obtain ⟨block, t, ran₁, ran₂⟩ := Prog.bind_returned.1 ran
  have ready₁ := ready.same (flatfsGetblock_logs _ _ s block t ran₁).same
  obtain ⟨result, u, ran₃, ran₄⟩ := Prog.bind_returned.1 ran₂
  have logged := writeLoop_logs _ _ _ _ _ _ _ _ t result u ran₃
  obtain ⟨bytes, rfl, here⟩ := writeLoop_ran _ _ _ _ _ nonneg _ _ _ t ready₁ (Int.le_refl 0)
    result u ran₃
  have ready₂ := ready₁.same logged.same
  simp only [writeSize, Prog.bind_gets_apply, Prog.ite_apply] at ran₄
  split at ran₄
  · rw [Prog.bind_modify_apply] at ran₄
    obtain ⟨stored, w, ran₅, ran₆⟩ := Prog.bind_returned.1 ran₄
    obtain ⟨rfl, rfl⟩ := writeBuffer_ran (ready₂.same (.setWord _ _ _)) ran₅
    rw [if_pos rfl] at ran₆
    cases ran₆
    exact here
  · cases ran₄
    exact here

end Volume

/-- The word that a fileid is read as. -/
theorem fileid_toNat {fileid : CInt} {p : Nat} (isFile : fileid.val = p) (small : p < 4096) :
    (BitVec.ofInt 32 fileid.val).toNat = p := by
  rw [BitVec.toNat_ofInt, isFile]
  omega

section Calls

variable {s : Flat} (mounted : FlatMounted s) {j : Nat} (used : Used (s.blocks 2) j)
  {fileid : CInt} (isFile : fileid.val = inodeOf s.blocks j) {datasize offset : CInt}

include mounted used isFile

/-- A call on a file finds its inode. -/
theorem flatfsWrite_inode (buffer : Nat → Byte) (some : 0 < datasize.val)
    (low : 0 ≤ offset.val) :
    flatfsWrite fileid buffer datasize offset s =
      (if fileSize (s.blocks (inodeOf s.blocks j)) < offset.val then unlock VFS_ERROR
        else writeBlocks (BitVec.ofInt 32 fileid.val) buffer datasize.val offset.val)
        (s.locked.didRead (inodeOf s.blocks j) .inode) := by
  obtain ⟨above, inside⟩ := mounted.image.inode_inside used
  have small := mounted.ready.small
  have number := fileid_toNat isFile (by omega)
  have loaded : readBlock (BitVec.ofInt 32 fileid.val) FlatBuffer.inode s.locked =
      .returned (true, s.locked.didRead (BitVec.ofInt 32 fileid.val).toNat .inode) :=
    Volume.readBlock_ready mounted.ready.locked FlatBuffer.inode (by rw [number]; exact inside)
  rw [number] at loaded
  rw [flatfsWrite, Prog.bind_of_returned (Volume.lockP_free mounted.free), Prog.bind_gets_apply,
    if_neg (by rw [Volume.locked_totalblocks]; omega), if_neg (by omega),
    Prog.bind_of_returned loaded]
  simp only [if_true, Prog.bind_gets_apply, Volume.didRead_buffer, Function.update_self,
    Volume.locked_blocks]
  rfl

/-- **The start of a write** inside the file: its inode and its double-indirect block are read
in. -/
theorem flatfsWrite_start (buffer : Nat → Byte)
    (inside : WriteInside (s.blocks (inodeOf s.blocks j)) datasize offset) :
    ∃ v, flatfsWrite fileid buffer datasize offset s =
        (writeGrow (finalBlock datasize offset) >>=
          writeRest (BitVec.ofInt 32 fileid.val) buffer datasize offset) v ∧
      Volume.Same s.locked v ∧ v.blocks = s.blocks ∧ v.refused = s.refused ∧ v.Fetched j := by
  obtain ⟨above, within⟩ := mounted.image.inode_inside used
  have same : Volume.Same s.locked (s.locked.didRead (inodeOf s.blocks j) FlatBuffer.inode) :=
    .didRead _ _
  obtain ⟨v, ran, same', disk, inode, none, fetched⟩ := Volume.loadDouble_cases (j := j)
    (mounted.ready.locked.same same) (s := s.locked.didRead (inodeOf s.blocks j) FlatBuffer.inode)
    mounted.image used (by simp)
  refine ⟨v, ?_, same.trans same', disk, none, fetched⟩
  have notPast : ¬ fileSize (s.blocks (inodeOf s.blocks j)) < offset.val :=
    Int.not_lt.2 inside.high
  rw [flatfsWrite_inode mounted used isFile buffer inside.some inside.low, if_neg notPast,
    writeBlocks, Prog.bind_of_returned ran, if_pos rfl]
  rfl

/-- A call that is refused at once. -/
theorem flatfsWrite_refused (buffer : Nat → Byte) (some : 0 < datasize.val)
    (outside : offset.val < 0 ∨ fileSize (s.blocks (inodeOf s.blocks j)) < offset.val) :
    (flatfsWrite fileid buffer datasize offset).Ends s fun result t =>
      result < 0 ∧ t.blocks = s.blocks := by
  by_cases low : offset.val < 0
  · refine ⟨VFS_INVALID_PARAMS, { s.locked with lock := s.locked.lock + 1 }, ?_, by decide, rfl⟩
    rw [flatfsWrite, Prog.bind_of_returned (Volume.lockP_free mounted.free), Prog.bind_gets_apply,
      if_pos (.inr (.inr low))]
    rfl
  · have past : fileSize (s.blocks (inodeOf s.blocks j)) < offset.val := by
      rcases outside with below | past
      · exact absurd below low
      · exact past
    rw [Prog.ends_congr (flatfsWrite_inode mounted used isFile buffer some (Int.not_lt.1 low)),
      if_pos past]
    exact ⟨VFS_ERROR, _, rfl, by decide, rfl⟩

/-- **A write that needs more blocks than are free** fails and changes no block in use, if and
only if it is refused at once or one of the first allocations is. -/
theorem flatfsWrite_full_iff (buffer : Nat → Byte) (some : 0 < datasize.val)
    (full : Lib.free (s.blocks 1) s.totalblocks <
      writeNeed (s.blocks (inodeOf s.blocks j)) datasize offset) :
    ((flatfsWrite fileid buffer datasize offset).Ends s fun result t =>
        result < 0 ∧ t.blocks 1 = s.blocks 1 ∧ t.blocks 2 = s.blocks 2 ∧
        t.blocks (inodeOf s.blocks j) = s.blocks (inodeOf s.blocks j) ∧
        ∀ b, Marked s.blocks b → t.blocks b = s.blocks b) ↔
      offset.val < 0 ∨ fileSize (s.blocks (inodeOf s.blocks j)) < offset.val ∨
        Lib.free (s.blocks 1) s.totalblocks <
          writeFirst (s.blocks (inodeOf s.blocks j)) datasize offset := by
  by_cases outside : offset.val < 0 ∨ fileSize (s.blocks (inodeOf s.blocks j)) < offset.val
  · refine iff_of_true ?_ (outside.imp_right .inl)
    refine (flatfsWrite_refused mounted used isFile buffer some outside).mono ?_
    rintro result t ⟨negative, kept⟩
    rw [kept]
    exact ⟨negative, rfl, rfl, rfl, fun _ _ => rfl⟩
  · rw [not_or, Int.not_lt, Int.not_lt] at outside
    have inside : WriteInside (s.blocks (inodeOf s.blocks j)) datasize offset :=
      ⟨some, outside.1, outside.2, (mounted.image.file j used).bound⟩
    obtain ⟨v, step, same, disk, -, fetched⟩ :=
      flatfsWrite_start mounted used isFile buffer inside
    have inode := fetched.inode
    have ready := mounted.ready.locked.same same
    have room : 3 ≤ v.totalblocks := by
      rw [same.totalblocks]
      exact mounted.room
    rw [disk] at inode
    rw [← inode] at inside full ⊢
    rw [Prog.ends_congr step]
    rcases Volume.writeGrow_cases ready room inside (grows_of_need (Nat.zero_lt_of_lt full)) with
      ⟨t, ran, short, refused⟩ | ⟨t, u, first, dbl, grow, enough, -, filled, -, -, filled', -⟩
    · rw [disk, same.totalblocks, Volume.locked_totalblocks] at short
      refine iff_of_true ⟨VFS_ERROR, { t with lock := t.lock + 1 }, ?_, by decide, ?_⟩
        (.inr (.inr short))
      · rw [Prog.bind_of_returned ran]
        rfl
      · have kept : ∀ b, Marked s.blocks b → t.blocks b = s.blocks b := by
          intro b marked
          rw [← disk]
          refine refused.kept b ?_ List.not_mem_nil
          simp only [Volume.marked, Volume.didRead_buffer, Function.update_self]
          rw [disk]
          exact marked.2
        have system : ∀ b < 3, t.blocks b = s.blocks b := fun b small =>
          kept b (mounted.image.held.reserved b small)
        refine ⟨system 1 (by decide), system 2 (by decide), ?_, kept⟩
        rw [inode]
        exact kept _ (mounted.image.held.owned j _ (FlatImage.inode_mem used))
    · rw [disk, same.totalblocks, Volume.locked_totalblocks] at enough
      have past : ¬ fileSize (v.buffer .inode) < offset.val := Int.not_lt.2 inside.high
      refine iff_of_false ?_ (by omega)
      rintro ⟨result, w, ran, negative, -⟩
      obtain ⟨grown, x, ran₁, ran₂⟩ := Prog.bind_returned.1 ran
      rw [grow] at ran₁
      have ready' := (ready.same (.didRead 1 FlatBuffer.bat)).same
        (filled.took.same.trans filled'.took.same)
      obtain ⟨rfl, same'⟩ := Volume.growRest_ran ready' ran₁
      have := Volume.writeRest_ran (ready'.same same') (Int.le_of_lt some) result w ran₂
      omega

end Calls

/-! ## A full volume -/

theorem noBytes_inRange : -0x80000000 ≤ (0 : Int) ∧ (0 : Int) < 0x80000000 := by decide

def noBytes : CInt := ⟨0, noBytes_inRange⟩

theorem firstFile_inRange : -0x80000000 ≤ (3 : Int) ∧ (3 : Int) < 0x80000000 := by decide

/-- The first block after the system's. -/
def firstFile : CInt := ⟨3, firstFile_inRange⟩

def fourBlocks : Flat := Volume.idle 4 fun b => if b = 1 then systemBitmap else zeroblock

/-- What can be read off the volume after a file was created. -/
theorem created_check {filename : Name} {size : CInt} {s t : Flat} {result : Int}
    (ran : flatfsCreate filename size s = .returned (result, t)) (check : Flat → Bool)
    (holds : (match flatfsCreate filename size s with
      | .returned (_, t) => check t
      | .stopped _ => false) = true) : check t = true := by
  rw [ran] at holds
  exact holds

/-- The first byte of an empty file, on a volume that its inode has filled. -/
theorem flatfsWrite_full_iff_firstByte :
    (flatfsCreate newName noBytes).Ends fourBlocks fun _ t =>
      (flatfsWrite firstFile (fun _ => 1) oneByte noBytes).Ends t fun result u =>
        result < 0 ∧ ∀ b, Marked t.blocks b → u.blocks b = t.blocks b := by
  have mounted : FlatMounted fourBlocks :=
    { ready := Volume.ready_idle (by decide) _
      free := by decide
      room := by decide
      image := FlatImage.empty (fun _ small => systemBitmap_get.2 small) (by decide +kernel) }
  have can : Creatable fourBlocks.totalblocks fourBlocks.blocks newName noBytes :=
    ⟨by decide, by decide +kernel, findSlot_of_unused (j := 0) (by decide) rfl, by decide +kernel⟩
  obtain ⟨result, t, ran, -, mounted', -⟩ := flatfsCreate_found mounted (by decide) can
  have facts := created_check ran (fun t => decide (entryInode (t.blocks 2) 24 ≠ 0 ∧
    inodeOf t.blocks 24 = 3 ∧ Lib.free (t.blocks 1) t.totalblocks = 0 ∧
    writeNeed (t.blocks 3) oneByte noBytes = 1 ∧ writeFirst (t.blocks 3) oneByte noBytes = 1))
    (by decide +kernel)
  obtain ⟨named, place, full, need, first⟩ := of_decide_eq_true facts
  refine ⟨result, t, ran, ?_⟩
  have short : Lib.free (t.blocks 1) t.totalblocks <
      writeNeed (t.blocks (inodeOf t.blocks 24)) oneByte noBytes := by
    rw [place, full, need]
    decide
  have used : Used (t.blocks 2) 24 := ⟨by decide, named⟩
  have isFile : firstFile.val = inodeOf t.blocks 24 := by
    rw [place]
    rfl
  have refused := (flatfsWrite_full_iff mounted' used isFile (fun _ => 1)
    (show 0 < oneByte.val by decide) short).2
    (.inr (.inr (by rw [place, full, first]; decide)))
  exact refused.mono fun _ _ holds => ⟨holds.1, holds.2.2.2.2⟩

def twelveBlocks : Flat := Volume.idle 12 fun b => if b = 1 then systemBitmap else zeroblock

/-- All that the inode reaches. -/
def sevenBlocks : CInt := ⟨3584, by decide⟩

/-- **A table without its block**: one block is free, the write needs two, and the byte goes to
block 0, which the unused table names. -/
theorem flatfsWrite_full_overwrites :
    (flatfsCreate newName sevenBlocks).Ends twelveBlocks fun _ t =>
      FlatMounted t ∧ (∃ j, Used (t.blocks 2) j ∧ firstFile.val = inodeOf t.blocks j ∧
        Lib.free (t.blocks 1) t.totalblocks <
          writeNeed (t.blocks (inodeOf t.blocks j)) oneByte sevenBlocks) ∧
      (flatfsWrite firstFile (fun _ => 1) oneByte sevenBlocks).Ends t fun result u =>
        result = 1 ∧ Marked t.blocks 0 ∧ u.blocks 0 ≠ t.blocks 0 := by
  have mounted : FlatMounted twelveBlocks :=
    { ready := Volume.ready_idle (by decide) _
      free := by decide
      room := by decide
      image := FlatImage.empty (fun _ small => systemBitmap_get.2 small) (by decide +kernel) }
  have can : Creatable twelveBlocks.totalblocks twelveBlocks.blocks newName sevenBlocks :=
    ⟨by decide, by decide +kernel, findSlot_of_unused (j := 0) (by decide) rfl, by decide +kernel⟩
  obtain ⟨result, t, ran, -, mounted', -⟩ := flatfsCreate_found mounted (by decide) can
  have facts := created_check ran (fun t => decide (entryInode (t.blocks 2) 24 ≠ 0 ∧
    inodeOf t.blocks 24 = 3 ∧
    Lib.free (t.blocks 1) t.totalblocks < writeNeed (t.blocks 3) oneByte sevenBlocks))
    (by decide +kernel)
  have written := created_check ran (fun t =>
    match flatfsWrite firstFile (fun _ => 1) oneByte sevenBlocks t with
    | .returned (result, u) => decide (result = 1 ∧ u.blocks 0 0 ≠ t.blocks 0 0)
    | .stopped _ => false) (by decide +kernel)
  obtain ⟨named, place, full⟩ := of_decide_eq_true facts
  refine ⟨result, t, ran, mounted', ⟨24, ⟨by decide, named⟩, by rw [place]; rfl,
    by rw [place]; exact full⟩, ?_⟩
  cases outcome : flatfsWrite firstFile (fun _ => 1) oneByte sevenBlocks t with
  | stopped why =>
      rw [outcome] at written
      cases written
  | returned pair =>
      obtain ⟨bytes, u⟩ := pair
      rw [outcome] at written
      obtain ⟨one, changed⟩ := of_decide_eq_true written
      exact ⟨bytes, u, outcome, one, mounted'.image.held.reserved 0 (by decide),
        fun same => changed (by rw [same])⟩

end Buenos.Fs
