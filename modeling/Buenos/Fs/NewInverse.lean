/-
# Fs.NewInverse -- creating and removing a file of NewFS

`newfs_create` takes its blocks with `blockbitmap_findnset`, which marks them in the superblock;
`newfs_remove` clears other bits, and writes the old allocation block and the directory.  So the
two undo each other exactly when the creation ends before it takes a block
(`newfs_inverse_exact`): the magic number has a clear bit below each mark, the marks stay until the
creation returns (`SuperMarked`), and the removal writes no superblock (`BitsCleared`).
-/
import Buenos.Fs.NewScan

namespace Buenos.Fs

open Buenos.Lib Buenos.Theory

set_option autoImplicit false

/-! ## Single requests -/

namespace NewFs

theorem lockP_same : Prog.Follows SameDisk lockP := by
  intro s _ t ran
  unfold lockP at ran
  split at ran
  · cases ran
    exact ⟨rfl, rfl, rfl, rfl⟩
  · cases ran

theorem unlock_same {α : Type} (result : α) : Prog.Follows SameDisk (unlock result) := by
  intro s _ t ran
  cases ran
  exact ⟨rfl, rfl, rfl, rfl⟩

theorem loadDirectory_same : Prog.Follows SameDisk newfsLoadDirectory :=
  (Prog.Follows.gets _).bind fun _ _ _ _ ran => (readBlock_returned ran).1

theorem createSlot_same (filename : Name) (size : CInt) :
    Prog.Follows SameDisk (newfsCreateSlot filename size) := by
  refine lockP_same.bind fun _ => .ite (unlock_same _) ?_
  refine .branch loadDirectory_same ?_ (unlock_same _)
  refine Prog.Follows.bind (fun s _ t ran => ?_) fun found => ?_
  · rw [newfsCreateScan_eq] at ran
    cases ran
    exact ⟨rfl, rfl, rfl, rfl⟩
  · match found with
    | none => exact unlock_same _
    | some none => exact unlock_same _
    | some (some index) => exact .pure _

theorem writeBuffer_returned {s t : NewFs} {block : Word} {buffer : Nat} {ok : Bool}
    (ran : NewFs.writeBuffer block buffer s = .returned (ok, t)) :
    Wrote block.toNat (s.content buffer) ok s t := writeBlock_returned ran

end NewFs

/-! ## The removal -/

theorem directoryBlock_positive (totalblocks : Word) : 0 < (newfsDirectoryBlock totalblocks).toNat := by
  rw [directoryBlock_toNat]
  omega

theorem directoryBlock_ne_zero (totalblocks : Word) : newfsDirectoryBlock totalblocks ≠ 0 := by
  intro zero
  have positive := directoryBlock_positive totalblocks
  rw [zero] at positive
  exact absurd positive (by decide)

/-- A removal leaves the superblock, and of the blocks other than block 1 and the directory it
clears bits only. -/
structure BitsCleared (s t : NewFs) : Prop where
  totalblocks : t.totalblocks = s.totalblocks
  answers : t.disk.answers = s.disk.answers
  superblock : t.disk.blocks 0 = s.disk.blocks 0
  bits : (∀ n, s.disk.answers n = true) → ∀ b, b ≠ NEWFS_ALLOCATION_BLOCK →
    b ≠ (newfsDirectoryBlock s.totalblocks).toNat →
      ∀ q, bitmapGet (t.disk.blocks b) q = true → bitmapGet (s.disk.blocks b) q = true

theorem BitsCleared.trans {s t u : NewFs} (first : BitsCleared s t) (second : BitsCleared t u) :
    BitsCleared s u := by
  refine ⟨second.totalblocks.trans first.totalblocks, second.answers.trans first.answers,
    second.superblock.trans first.superblock, fun answers b apart other q set => ?_⟩
  refine first.bits answers b apart other q (second.bits ?_ b apart ?_ q set)
  · rwa [first.answers]
  · rwa [first.totalblocks]

instance : Std.Refl BitsCleared := ⟨fun _ => ⟨rfl, rfl, rfl, fun _ _ _ _ _ set => set⟩⟩

instance : IsTrans NewFs BitsCleared := ⟨fun _ _ _ => BitsCleared.trans⟩

namespace NewFs

theorem SameDisk.cleared {s t : NewFs} (same : SameDisk s t) : BitsCleared s t :=
  ⟨same.totalblocks, same.answers, by rw [same.blocks], fun _ b _ _ q set => by rwa [same.blocks] at set⟩

/-- A write to block 1, to the directory, or of fewer bits. -/
theorem Wrote.cleared {b : Nat} {content : Block} {ok : Bool} {s t : NewFs} (wrote : Wrote b content ok s t)
    (apart : b ≠ 0) (fewer : b = NEWFS_ALLOCATION_BLOCK ∨ b = (newfsDirectoryBlock s.totalblocks).toNat ∨
      ((∀ n, s.disk.answers n = true) →
        ∀ q, bitmapGet content q = true → bitmapGet (s.disk.blocks b) q = true)) :
    BitsCleared s t := by
  refine ⟨wrote.totalblocks, wrote.answers, ?_, fun answers c bat directory q set => ?_⟩
  · exact wrote.others apart.symm
  · rw [wrote.blocks] at set
    split at set
    · by_cases same : c = b
      · subst same
        rw [Function.update_self] at set
        rcases fewer with bad | bad | fewer
        · exact absurd bad bat
        · exact absurd bad directory
        · exact fewer answers q set
      · rwa [Function.update_of_ne same] at set
    · exact set

end NewFs

section Removal

theorem modify_cleared {f : NewFs → NewFs} (same : ∀ s, NewFs.SameDisk s (f s)) :
    Prog.Follows BitsCleared (Prog.modify f : Prog NewFs Unit) := .modify fun s => (same s).cleared

theorem readBlock_cleared (block : Word) (buffer : Nat) :
    Prog.Follows BitsCleared (NewFs.readBlock block buffer) :=
  fun _ _ _ ran => (NewFs.readBlock_returned ran).1.cleared

theorem unlock_cleared {α : Type} (result : α) : Prog.Follows BitsCleared (NewFs.unlock result) :=
  fun s a t ran => (NewFs.unlock_same result s a t ran).cleared

theorem lockP_cleared : Prog.Follows BitsCleared NewFs.lockP :=
  fun s a t ran => (NewFs.lockP_same s a t ran).cleared

/-- A position is below 2^31, so its block is not block 0. -/
theorem bitmapBlock_nonzero {pos : Nat} (small : pos < 0x80000000) :
    (BitVec.ofNat 32 (bitmapBlock pos)).toNat ≠ 0 := by
  rw [bitmapBlock_eq, BitVec.toNat_ofNat]
  split <;> omega

theorem blockbitmapSet_cleared {pos l : Int} (int : l < 0x80000000) :
    Prog.Follows BitsCleared (blockbitmapSet pos l false) := by
  intro s
  refine .assert_bind fun nonneg => .assert_bind fun within => ?_
  have nonneg := of_decide_eq_true nonneg
  have within := of_decide_eq_true within
  intro _ u ran
  obtain ⟨buffer, t, read, ran⟩ := Prog.bind_returned.1 ran
  obtain ⟨done, v, written, ran⟩ := Prog.bind_returned.1 ran
  cases ran
  obtain ⟨same, -, content⟩ := NewFs.readStack_returned read
  refine same.cleared.trans ((NewFs.writeBlock_returned written).cleared
    (bitmapBlock_nonzero (by omega)) (.inr (.inr fun answers q set => ?_)))
  rw [bitmapGet_bitmapSet] at set
  split at set
  · cases set
  · rwa [content (by rwa [← same.answers]), ← same.blocks] at set

theorem newfsFree_cleared (block : Word) : Prog.Follows BitsCleared (newfsFree block) := by
  refine (Prog.Follows.gets _).bind fun totalblocks => blockbitmapSet_cleared ?_
  have := @BitVec.toInt_lt 32 totalblocks
  omega

theorem newfsFreeNamed_cleared (i n : Nat) : Prog.Follows BitsCleared (newfsFreeNamed i n) := by
  induction n generalizing i with
  | zero => exact .pure _
  | succ n ih =>
      refine (Prog.Follows.gets _).bind fun block => .ite ?_ (ih _)
      exact (newfsFree_cleared block).bind fun _ => ih _

theorem newfsRemoveIndir_cleared (todbl : Option Nat) :
    Prog.Follows BitsCleared (newfsRemoveIndir todbl) := by
  refine (Prog.Follows.gets _).bind fun ind => ?_
  exact .branch (readBlock_cleared _ _) ((newfsFreeNamed_cleared _ _).bind fun _ => .pure _) (.pure _)

theorem newfsRemoveDouble_cleared (rounds i tmpblocks : Nat) :
    Prog.Follows BitsCleared (newfsRemoveDouble rounds i tmpblocks) := by
  induction rounds generalizing i tmpblocks with
  | zero => exact .ite (fun _ _ _ ran => by cases ran) (.pure _)
  | succ rounds ih =>
      exact .ite (.branch (newfsRemoveIndir_cleared _) (ih _ _) (.pure _)) (.pure _)

theorem newfsStoreBat_cleared : Prog.Follows BitsCleared newfsStoreBat :=
  fun _ _ _ ran => (NewFs.writeBuffer_returned ran).cleared (by decide) (.inl rfl)

/-- The directory is written with whatever is in a buffer. -/
theorem writeDirectory_cleared (s : NewFs) (buffer : Nat) :
    (NewFs.writeBuffer (newfsDirectoryBlock s.totalblocks) buffer).Keeps s fun _ t => BitsCleared s t :=
  fun _ _ ran => (NewFs.writeBuffer_returned ran).cleared
    (Nat.pos_iff_ne_zero.1 (directoryBlock_positive _)) (.inr (.inl rfl))

theorem newfsRemoveStore_cleared (index : Nat) : Prog.Follows BitsCleared (newfsRemoveStore index) := by
  refine (Prog.Follows.gets _).bind fun inode => ?_
  refine (newfsFree_cleared inode).bind fun _ => (newfsFreeNamed_cleared _ _).bind fun _ => ?_
  refine (modify_cleared fun _ => by exact ⟨rfl, rfl, rfl, rfl⟩).bind fun _ => ?_
  refine (modify_cleared fun _ => by exact ⟨rfl, rfl, rfl, rfl⟩).bind fun _ => ?_
  refine .branch newfsStoreBat_cleared ?_ (unlock_cleared _)
  -- the number of blocks is read once and used for two writes
  intro s
  refine .gets_bind ?_
  refine (writeDirectory_cleared s batBuffer).bind fun ok t first => .ite ?_ ?_
  · have second : (NewFs.writeBuffer (newfsDirectoryBlock s.totalblocks) mdBuffer).Keeps t
        fun _ u => BitsCleared s u := by
      rw [← first.totalblocks]
      exact (writeDirectory_cleared t mdBuffer).mono fun _ _ written => first.trans written
    refine second.bind fun ok u here => .ite ?_ ?_
    · exact (unlock_cleared _ u).mono fun _ _ last => here.trans last
    · exact (unlock_cleared _ u).mono fun _ _ last => here.trans last
  · exact (unlock_cleared _ t).mono fun _ _ last => first.trans last

/-- The single-indirect part of the removal, and what follows. -/
theorem removeIndir_cleared (index : Nat) (cleared : Bool) :
    Prog.Follows BitsCleared (do
      if cleared then do
        let indir ← Prog.gets fun s => s.memory (inodeBuffer + indirWord)
        let cleared ← if 0 < indir.toNat then newfsRemoveIndir none else pure true
        if cleared then newfsRemoveStore index else NewFs.unlock VFS_ERROR
      else NewFs.unlock VFS_ERROR) := by
  have store (cleared : Bool) : Prog.Follows BitsCleared
      (if cleared then newfsRemoveStore index else NewFs.unlock VFS_ERROR) :=
    .ite (newfsRemoveStore_cleared _) (unlock_cleared _)
  refine .ite ((Prog.Follows.gets _).bind fun indir => ?_) (unlock_cleared _)
  exact .ite ((newfsRemoveIndir_cleared _).bind store) ((Prog.Follows.pure true).bind store)

theorem newfsRemoveBlocks_cleared (index : Nat) : Prog.Follows BitsCleared (newfsRemoveBlocks index) := by
  refine (Prog.Follows.gets _).bind fun numblocks => (Prog.Follows.gets _).bind fun dbl => ?_
  have rest := removeIndir_cleared index
  refine .ite (.branch (readBlock_cleared _ _) ?_ ?_) ?_
  · exact (newfsRemoveDouble_cleared _ _ _).bind rest
  · exact (Prog.Follows.pure false).bind rest
  · exact (Prog.Follows.pure true).bind rest

theorem newfsRemoveAt_cleared (index : Nat) : Prog.Follows BitsCleared (newfsRemoveAt index) := by
  refine .branch (readBlock_cleared _ _) ?_ (unlock_cleared _)
  refine (Prog.Follows.gets _).bind fun inode => ?_
  exact .branch (readBlock_cleared _ _) (newfsRemoveBlocks_cleared _) (unlock_cleared _)

theorem newfsFind_cleared (filename : Name) (n i : Nat) :
    Prog.Follows BitsCleared (newfsFind filename n i) := by
  intro s _ t ran
  rw [newfsFind_eq] at ran
  cases ran
  exact NewFs.SameDisk.cleared ⟨rfl, rfl, rfl, rfl⟩

theorem newfsLoadDirectory_cleared : Prog.Follows BitsCleared newfsLoadDirectory :=
  fun s a t ran => (NewFs.loadDirectory_same s a t ran).cleared

/-- **What a removal does to the disk.** -/
theorem newfsRemove_cleared (filename : Name) : Prog.Follows BitsCleared (newfsRemove filename) := by
  have slot : Prog.Follows BitsCleared (newfsRemoveSlot filename) := by
    refine lockP_cleared.bind fun _ => .branch newfsLoadDirectory_cleared ?_ (unlock_cleared _)
    refine (newfsFind_cleared _ _ _).bind fun found => ?_
    cases found with
    | none => exact unlock_cleared _
    | some index => exact .pure _
  refine slot.bind fun found => ?_
  cases found with
  | inl result => exact .pure _
  | inr index => exact newfsRemoveAt_cleared index

end Removal

/-! ## The allocations -/

/-- Bit 0 of the superblock is set, and so is the mark `p`; requests are served, and the search
enters its loop. -/
structure SuperMarked (l : Word) (p : Nat) (s : NewFs) : Prop where
  answers : ∀ n, s.disk.answers n = true
  totalblocks : s.totalblocks = l
  first : bitmapGet (s.disk.blocks 0) 0 = true
  mark : bitmapGet (s.disk.blocks 0) p = true
  enters : 0 < l.toInt ∧ l.toInt ≤ 0x7ffff000

/-- The search has taken position `q`, the first that was clear in the superblock. -/
structure SuperTaken (q : Nat) (s t : NewFs) : Prop where
  small : q < NEWFS_BLOCK_BITS
  clear : bitmapGet (s.disk.blocks 0) q = false
  before : ∀ k < q, bitmapGet (s.disk.blocks 0) k = true
  blocks : t.disk.blocks = Function.update s.disk.blocks 0 (bitmapSet (s.disk.blocks 0) q true)
  answers : t.disk.answers = s.disk.answers
  totalblocks : t.totalblocks = s.totalblocks
  memory : t.memory = s.memory

section Allocations

variable {l : Word} {p : Nat} {s t : NewFs}

theorem SuperMarked.same (marked : SuperMarked l p s) (same : NewFs.SameDisk s t) : SuperMarked l p t := by
  refine ⟨?_, same.totalblocks.trans marked.totalblocks, ?_, ?_, marked.enters⟩
  · rw [same.answers]
    exact marked.answers
  · rw [same.blocks]
    exact marked.first
  · rw [same.blocks]
    exact marked.mark

/-- A write to another block leaves the mark. -/
theorem SuperMarked.wrote {b : Nat} {content : Block} {ok : Bool} (marked : SuperMarked l p s)
    (wrote : NewFs.Wrote b content ok s t) (apart : b ≠ 0) : SuperMarked l p t := by
  have kept := wrote.others apart.symm
  refine ⟨?_, wrote.totalblocks.trans marked.totalblocks, kept ▸ marked.first, kept ▸ marked.mark,
    marked.enters⟩
  rw [wrote.answers]
  exact marked.answers

theorem SuperMarked.allocated {q : Nat} (marked : SuperMarked l p s) (allocated : SuperTaken q s t) :
    SuperMarked l p t ∧ SuperMarked l q t ∧ q ≠ 0 := by
  have kept (k : Nat) (set : bitmapGet (s.disk.blocks 0) k = true) :
      bitmapGet (t.disk.blocks 0) k = true := by
    rw [allocated.blocks, Function.update_self, bitmapGet_bitmapSet, set, ite_self]
  have marks : bitmapGet (t.disk.blocks 0) q = true := by
    rw [allocated.blocks, Function.update_self, bitmapGet_bitmapSet_self]
  have answers : ∀ n, t.disk.answers n = true := by
    rw [allocated.answers]
    exact marked.answers
  have size := allocated.totalblocks.trans marked.totalblocks
  refine ⟨⟨answers, size, kept 0 marked.first, kept p marked.mark, marked.enters⟩,
    ⟨answers, size, kept 0 marked.first, marks, marked.enters⟩, ?_⟩
  rintro rfl
  have clear := allocated.clear
  rw [marked.first] at clear
  cases clear

/-- Once the loop is entered it returns with a position taken from the superblock. -/
theorem findnsetRounds_keeps {maxBlock : Int} (enters : 0 < maxBlock) (rounds : Nat) (l : Int)
    (answers : ∀ n, s.disk.answers n = true) :
    (findnsetRounds maxBlock rounds l).Keeps s fun r t => ∃ q : Nat, r = q ∧ SuperTaken q s t := by
  induction rounds generalizing l s with
  | zero => exact fun _ _ ran => by cases ran
  | succ rounds ih =>
      rw [findnsetRounds, if_pos enters]
      intro r t ran
      obtain ⟨buffer, u, read, ran⟩ := Prog.bind_returned.1 ran
      obtain ⟨same, memory, content⟩ := NewFs.readStack_returned read
      obtain rfl : buffer = s.disk.blocks 0 := content answers
      have answers' : ∀ n, u.disk.answers n = true := by
        rw [same.answers]
        exact answers
      rw [Prog.bind_assert_apply] at ran
      split at ran
      · rcases found : bitmapFindnset (s.disk.blocks 0) (min l NEWFS_BLOCK_BITS).toNat with _ | ⟨q, filled⟩
        · simp only [found] at ran
          obtain ⟨q, position, allocated⟩ := ih _ answers' r t ran
          refine ⟨q, position, allocated.small, same.blocks ▸ allocated.clear,
            same.blocks ▸ allocated.before, ?_, allocated.answers.trans same.answers,
            allocated.totalblocks.trans same.totalblocks, allocated.memory.trans memory⟩
          rw [allocated.blocks, same.blocks]
        · simp only [found] at ran
          obtain ⟨within, clear, before, rfl⟩ := bitmapFindnset_some found
          obtain ⟨done, v, written, ran⟩ := Prog.bind_returned.1 ran
          cases ran
          have wrote := NewFs.writeBlock_returned written
          have served := wrote.served answers'
          refine ⟨q, rfl, by omega, clear, before, ?_, wrote.answers.trans same.answers,
            wrote.totalblocks.trans same.totalblocks, wrote.memory.trans memory⟩
          rw [wrote.blocks, served, if_pos rfl, same.blocks]
          rfl
      · cases ran

/-- One block: its number is stored, and its mark is new. -/
theorem newfsBmAlloc_marked (marked : SuperMarked l p s) (target : Nat) :
    (newfsBmAlloc target).Keeps s fun ok t =>
      ok = true ∧ ∃ q u, SuperTaken q s u ∧ t = u.setWord target (BitVec.ofNat 32 q) := by
  refine .gets_bind ?_
  have enters := marked.enters
  rw [← marked.totalblocks] at enters
  have nonneg : 0 ≤ s.totalblocks.toInt := Int.le_of_lt enters.1
  have int : s.totalblocks.toInt < 0x80000000 := Int.lt_of_le_of_lt enters.2 (by decide)
  have search : (blockbitmapFindnset s.totalblocks.toInt).Keeps s fun r t =>
      ∃ q : Nat, r = q ∧ SuperTaken q s t :=
    .assert_bind fun _ =>
      findnsetRounds_keeps ((maxBlock_positive nonneg int).2 enters) _ _ marked.answers
  refine search.bind fun r u found => ?_
  obtain ⟨q, rfl, allocated⟩ := found
  have word : BitVec.ofInt 32 (q : Int) = BitVec.ofNat 32 q := BitVec.ofInt_natCast 32 q
  intro ok t ran
  cases ran
  have small : q < 4096 := allocated.small
  refine ⟨decide_eq_true ?_, q, u, allocated, by rw [word]⟩
  rw [word]
  intro minus
  have value := congrArg BitVec.toNat minus
  rw [BitVec.toNat_ofNat] at value
  have : (-1 : BitVec 32).toNat = 4294967295 := by decide
  omega

/-- A part of the creation that keeps the mark, and the words of the memory that `kept` holds of. -/
def Keeping (l : Word) (p : Nat) (kept : Nat → Prop) (s t : NewFs) : Prop :=
  SuperMarked l p t ∧ ∀ w, kept w → t.memory w = s.memory w

theorem Keeping.trans {kept : Nat → Prop} {u : NewFs} (first : Keeping l p kept s t)
    (second : Keeping l p kept t u) : Keeping l p kept s u :=
  ⟨second.1, fun w kept => (second.2 w kept).trans (first.2 w kept)⟩

theorem allocated_setWord {q target : Nat} {u : NewFs} (marked : SuperMarked l p s)
    (allocated : SuperTaken q s u) :
    Keeping l p (· ≠ target) s (u.setWord target (BitVec.ofNat 32 q)) ∧
      (u.setWord target (BitVec.ofNat 32 q)).memory target ≠ 0 := by
  obtain ⟨here, -, nonzero⟩ := marked.allocated allocated
  have small : q < 4096 := allocated.small
  refine ⟨⟨here.same ⟨rfl, rfl, rfl, rfl⟩, fun w other => ?_⟩, ?_⟩
  · exact (Function.update_of_ne other _ _).trans (congrFun allocated.memory w)
  · have stored : (u.setWord target (BitVec.ofNat 32 q)).memory target = BitVec.ofNat 32 q :=
      Function.update_self ..
    rw [stored]
    intro zero
    have value := congrArg BitVec.toNat zero
    rw [BitVec.toNat_ofNat] at value
    have : (0 : BitVec 32).toNat = 0 := rfl
    omega

/-- **Blocks taken and zeroed** are not the superblock. -/
theorem newfsAllocZeroed_keeping (marked : SuperMarked l p s) (i n : Nat) :
    (newfsAllocZeroed i n).Keeps s fun ok t => Keeping l p (fun w => w < i ∨ i + n ≤ w) s t ∧
      (ok = true → ∀ w, i ≤ w → w < i + n → t.memory w ≠ 0) := by
  induction n generalizing i s with
  | zero => exact .pure ⟨⟨marked, fun w _ => rfl⟩, fun _ w low high => by omega⟩
  | succ n ih =>
      refine (newfsBmAlloc_marked marked i).bind fun ok t taken => ?_
      obtain ⟨rfl, q, u, allocated, rfl⟩ := taken
      obtain ⟨⟨here, others⟩, nonzero⟩ := @allocated_setWord l p s q i u marked allocated
      rw [if_pos rfl]
      refine .gets_bind ?_
      intro ok t ran
      obtain ⟨written, v, write, ran⟩ := Prog.bind_returned.1 ran
      have wrote := NewFs.writeBlock_returned write
      have apart : ((u.setWord i (BitVec.ofNat 32 q)).memory i).toNat ≠ 0 :=
        fun zero => nonzero (BitVec.eq_of_toNat_eq zero)
      have next := here.wrote wrote apart
      cases written with
      | false =>
          cases ran
          refine ⟨⟨next, fun w outside => ?_⟩, fun ok => absurd ok (by decide)⟩
          rw [wrote.memory, others w (by omega)]
      | true =>
          rw [if_pos rfl] at ran
          obtain ⟨⟨last, memory⟩, filled⟩ := ih next (i + 1) ok t ran
          refine ⟨⟨last, fun w outside => ?_⟩, fun done w low high => ?_⟩
          · rw [memory w (by omega), wrote.memory, others w (by omega)]
          · by_cases first : w = i
            · subst first
              rwa [memory w (by omega), wrote.memory]
            · exact filled done w (by omega) (by omega)

theorem newfsClearWords_keeping (marked : SuperMarked l p s) (lo hi : Nat) :
    (newfsClearWords lo hi).Keeps s fun _ t => Keeping l p (fun w => w < lo ∨ hi ≤ w) s t := by
  intro _ t ran
  cases ran
  exact ⟨marked.same ⟨rfl, rfl, rfl, rfl⟩, fun w outside => if_neg (by omega)⟩

theorem readBlock_keeping (marked : SuperMarked l p s) (block : Word) (buffer : Nat) :
    (NewFs.readBlock block buffer).Keeps s fun _ t =>
      Keeping l p (fun w => w < buffer ∨ buffer + 128 ≤ w) s t := by
  intro _ t ran
  obtain ⟨same, -, others⟩ := NewFs.readBlock_returned ran
  exact ⟨marked.same same, others⟩

theorem writeBuffer_keeping (marked : SuperMarked l p s) {block : Word} (buffer : Nat) (apart : block ≠ 0) :
    (NewFs.writeBuffer block buffer).Keeps s fun _ t => Keeping l p (fun _ => True) s t := by
  intro _ t ran
  have wrote := NewFs.writeBuffer_returned ran
  exact ⟨marked.wrote wrote fun zero => apart (BitVec.eq_of_toNat_eq zero), fun w _ => congrFun wrote.memory w⟩

/-- What lies outside the buffer of an indirect block. -/
def OutsideIndir (w : Nat) : Prop := w < siBuffer ∨ siBuffer + NEWFS_BLOCKS_SINDIR ≤ w

theorem indTarget_outside (todbl : Option Nat) : OutsideIndir (indTarget todbl) := by
  cases todbl with
  | none => exact .inl (by decide)
  | some i =>
      refine .inr ?_
      change 384 + 128 ≤ 512 + i
      omega

/-- The indirect block that has been chosen is read, filled and written back. -/
theorem fillIndir_keeping (marked : SuperMarked l p s) {todbl : Option Nat}
    (chosen : s.memory (indTarget todbl) ≠ 0)
    {numblocks offset : Nat} (fits : offset + numblocks ≤ NEWFS_BLOCKS_SINDIR) :
    (do
      let ind ← Prog.gets fun s => s.memory (indTarget todbl)
      let loaded ← NewFs.readBlock ind siBuffer
      if loaded then do
        let filled ← newfsAllocZeroed (siBuffer + offset) numblocks
        if filled then do
          newfsClearWords (siBuffer + (offset + numblocks)) (siBuffer + NEWFS_BLOCKS_SINDIR)
          let ind ← Prog.gets fun s => s.memory (indTarget todbl)
          NewFs.writeBuffer ind siBuffer
        else pure false
      else pure false : Prog NewFs Bool).Keeps s fun _ t => Keeping l p OutsideIndir s t := by
  have target := indTarget_outside todbl
  refine .gets_bind ?_
  refine (readBlock_keeping marked _ siBuffer).bind fun loaded t first => .ite ?_ (.pure first)
  refine (newfsAllocZeroed_keeping first.1 (siBuffer + offset) numblocks).bind fun filled u alloc => ?_
  have second : Keeping l p OutsideIndir s u := by
    refine first.trans ⟨alloc.1.1, fun w outside => alloc.1.2 w ?_⟩
    rcases outside with low | high
    · exact .inl (Nat.lt_of_lt_of_le low (Nat.le_add_right _ _))
    · exact .inr (Nat.le_trans (Nat.add_assoc _ _ _ ▸ Nat.add_le_add_left fits _) high)
  refine .ite ?_ (.pure second)
  refine (newfsClearWords_keeping second.1 _ _).bind fun _ v cleared => .gets_bind ?_
  have third : Keeping l p OutsideIndir s v := by
    refine second.trans ⟨cleared.1, fun w outside => cleared.2 w ?_⟩
    rcases outside with low | high
    · exact .inl (Nat.lt_of_lt_of_le low (Nat.le_add_right _ _))
    · exact .inr high
  have apart : v.memory (indTarget todbl) ≠ 0 := by
    rw [third.2 _ target]
    exact chosen
  exact (writeBuffer_keeping third.1 siBuffer apart).mono fun _ t last =>
    third.trans ⟨last.1, fun w _ => last.2 w trivial⟩

/-- The words below `siBuffer`, but for that of the indirect block. -/
def Early (w : Nat) : Prop := w < siBuffer ∧ w ≠ inodeBuffer + indirWord

theorem early_dbl : Early (inodeBuffer + dblIndirWord) := ⟨by decide, by decide⟩

theorem Early.outsideIndir {w : Nat} (early : Early w) : OutsideIndir w := .inl early.1

theorem Early.ne_indTarget {w : Nat} (early : Early w) (todbl : Option Nat) : w ≠ indTarget todbl := by
  cases todbl with
  | none => exact early.2
  | some i =>
      have low : w < 384 := early.1
      change w ≠ 512 + i
      omega

theorem newfsAllocIndir_keeping (marked : SuperMarked l p s) (todbl : Option Nat) {numblocks offset : Nat}
    (fits : offset + numblocks ≤ NEWFS_BLOCKS_SINDIR) :
    (newfsAllocIndir todbl numblocks offset).Keeps s fun _ t => Keeping l p Early s t := by
  have fill {u : NewFs} (first : Keeping l p Early s u) (chosen : u.memory (indTarget todbl) ≠ 0) :=
    (fillIndir_keeping first.1 chosen fits).mono fun _ t last =>
      first.trans ⟨last.1, fun w early => last.2 w (Early.outsideIndir early)⟩
  refine .gets_bind ?_
  by_cases unset : s.memory (indTarget todbl) = 0
  · rw [if_pos unset]
    refine (newfsBmAlloc_marked marked _).bind fun ok t taken => ?_
    obtain ⟨rfl, q, u, allocated, rfl⟩ := taken
    obtain ⟨kept, nonzero⟩ := @allocated_setWord l p s q (indTarget todbl) u marked allocated
    exact fill ⟨kept.1, fun w early => kept.2 w (early.ne_indTarget todbl)⟩ nonzero
  · rw [if_neg unset]
    exact fill ⟨marked, fun w _ => rfl⟩ unset

theorem Keeping.early (marked : SuperMarked l p s) : Keeping l p Early s s := ⟨marked, fun _ _ => rfl⟩

theorem Keeping.all {u : NewFs} (first : Keeping l p Early s t) (second : Keeping l p (fun _ => True) t u) :
    Keeping l p Early s u := first.trans ⟨second.1, fun w _ => second.2 w trivial⟩

theorem newfsAllocDouble_keeping (marked : SuperMarked l p s) (rounds i numblocks : Nat) {offset : Nat}
    (inside : offset ≤ NEWFS_BLOCKS_SINDIR) :
    (newfsAllocDouble rounds i numblocks offset).Keeps s fun _ t => Keeping l p Early s t := by
  induction rounds generalizing i numblocks offset s with
  | zero => exact .pure (.early marked)
  | succ rounds ih =>
      refine .ite (.pure (.early marked)) ?_
      have fits : offset + min numblocks (NEWFS_BLOCKS_SINDIR - offset) ≤ NEWFS_BLOCKS_SINDIR := by omega
      refine (newfsAllocIndir_keeping marked (some i) fits).bind fun done t first => .ite ?_ (.pure first)
      exact (ih first.1 (i + 1) _ (Nat.zero_le _)).mono fun _ u rest => first.trans rest

theorem newfsStoreBat_keeping (marked : SuperMarked l p s) :
    newfsStoreBat.Keeps s fun _ t => Keeping l p (fun _ => True) s t :=
  writeBuffer_keeping marked batBuffer (by decide)

theorem newfsAllocBlocksDouble_keeping (marked : SuperMarked l p s) (numblocks offset : Nat)
    (chosen : 0 < numblocks → s.memory (inodeBuffer + dblIndirWord) ≠ 0) :
    (newfsAllocBlocksDouble numblocks offset).Keeps s fun _ t => Keeping l p Early s t := by
  by_cases some : 0 < numblocks
  · rw [newfsAllocBlocksDouble, if_pos some]
    refine .gets_bind ?_
    refine (readBlock_keeping marked _ diBuffer).bind fun loaded t read => ?_
    have first : Keeping l p Early s t :=
      ⟨read.1, fun w early => read.2 w (.inl (Nat.lt_trans early.1 (by decide)))⟩
    refine .ite ?_ (.pure first)
    refine (newfsAllocDouble_keeping first.1 numblocks _ numblocks ?_).bind fun done u filled => ?_
    · exact Nat.le_of_lt (Nat.mod_lt _ (by decide))
    have second := first.trans filled
    refine .ite (.gets_bind ?_) (.pure second)
    have apart : u.memory (inodeBuffer + dblIndirWord) ≠ 0 := by
      rw [second.2 _ early_dbl]
      exact chosen some
    refine (writeBuffer_keeping second.1 diBuffer apart).bind fun written v wrote => ?_
    have third := second.all wrote
    exact .ite ((newfsStoreBat_keeping third.1).mono fun _ _ last => third.all last) (.pure third)
  · rw [newfsAllocBlocksDouble, if_neg some]
    exact (newfsStoreBat_keeping marked).mono fun _ _ last => (Keeping.early marked).all last

theorem newfsAllocBlocksSingle_keeping (marked : SuperMarked l p s) (numblocks : Nat)
    (chosen : NEWFS_BLOCKS_SINDIR < numblocks → s.memory (inodeBuffer + dblIndirWord) ≠ 0) :
    (newfsAllocBlocksSingle numblocks NEWFS_BLOCKS_DIRECT).Keeps s fun _ t => Keeping l p Early s t := by
  have room : NEWFS_BLOCKS_SINDIR + NEWFS_BLOCKS_DIRECT - NEWFS_BLOCKS_DIRECT = NEWFS_BLOCKS_SINDIR := rfl
  by_cases some : 0 < numblocks
  · rw [newfsAllocBlocksSingle, if_pos ⟨some, by decide⟩]
    have fits : NEWFS_BLOCKS_DIRECT - NEWFS_BLOCKS_DIRECT +
        min numblocks (NEWFS_BLOCKS_SINDIR + NEWFS_BLOCKS_DIRECT - NEWFS_BLOCKS_DIRECT) ≤
          NEWFS_BLOCKS_SINDIR := by omega
    refine (newfsAllocIndir_keeping marked none fits).bind fun done t first => .ite ?_ (.pure first)
    refine (newfsAllocBlocksDouble_keeping first.1 _ _ fun more => ?_).mono fun _ u rest => first.trans rest
    rw [first.2 _ early_dbl]
    exact chosen (by omega)
  · rw [newfsAllocBlocksSingle, if_neg fun both => some both.1]
    exact newfsAllocBlocksDouble_keeping marked numblocks _ fun more => absurd more some

theorem newfsAllocBlocks_keeping (marked : SuperMarked l p s) (numblocks : Nat)
    (chosen : NEWFS_BLOCKS_DIRECT + NEWFS_BLOCKS_SINDIR < numblocks →
      s.memory (inodeBuffer + dblIndirWord) ≠ 0) :
    (newfsAllocBlocks numblocks 0).Keeps s fun _ t =>
      t.memory inodeBuffer = s.memory inodeBuffer ∧ SuperMarked l p t := by
  rw [newfsAllocBlocks, if_pos (by decide)]
  refine (newfsAllocZeroed_keeping marked _ _).bind fun done t alloc => ?_
  have first : t.memory inodeBuffer = s.memory inodeBuffer := alloc.1.2 _ (.inl (by decide))
  have dbl : t.memory (inodeBuffer + dblIndirWord) = s.memory (inodeBuffer + dblIndirWord) :=
    alloc.1.2 _ (.inr (by unfold inodeBuffer directWord dblIndirWord NEWFS_BLOCKS_DIRECT; omega))
  refine .ite ?_ (.pure ⟨first, alloc.1.1⟩)
  refine (newfsClearWords_keeping alloc.1.1 _ _).bind fun _ u cleared => ?_
  have second : u.memory inodeBuffer = t.memory inodeBuffer :=
    cleared.2 _ (.inl (by unfold inodeBuffer directWord; omega))
  have dbl' : u.memory (inodeBuffer + dblIndirWord) = t.memory (inodeBuffer + dblIndirWord) :=
    cleared.2 _ (.inr (by decide))
  refine (newfsAllocBlocksSingle_keeping cleared.1 _ fun more => ?_).mono fun _ v rest => ?_
  · rw [dbl', dbl]
    exact chosen (by omega)
  · exact ⟨(rest.2 _ ⟨by decide, by decide⟩).trans (second.trans first), rest.1⟩

/-- The mark is there, or the superblock has been overwritten with an inode. -/
def Spoiled (p : Nat) (size : Word) (t : NewFs) : Prop :=
  bitmapGet (t.disk.blocks 0) p = true ∨ t.disk.blocks 0 0 = size

theorem unlock_spoiled {α : Type} {size : Word} (spoiled : Spoiled p size s) (result : α) :
    (NewFs.unlock result).Keeps s fun _ t => Spoiled p size t := by
  intro _ t ran
  cases ran
  exact spoiled

theorem newfsCreateStore_spoiled (marked : SuperMarked l p s) (index : Nat) :
    (newfsCreateStore index).Keeps s fun _ t => Spoiled p (s.memory inodeBuffer) t := by
  refine .gets_bind ?_
  refine (writeBuffer_keeping marked mdBuffer (directoryBlock_ne_zero _)).bind fun stored t first => ?_
  refine .ite (.gets_bind ?_) (unlock_spoiled (.inl first.1.mark) _)
  have written : (NewFs.writeBuffer (t.memory (entryWord index)) inodeBuffer).Keeps t
      fun _ u => Spoiled p (s.memory inodeBuffer) u := by
    intro ok u ran
    have wrote := NewFs.writeBuffer_returned ran
    by_cases zero : (t.memory (entryWord index)).toNat = 0
    · rw [zero] at wrote
      have served := wrote.served first.1.answers
      refine .inr ?_
      rw [wrote.blocks, served, if_pos rfl, Function.update_self]
      exact first.2 _ trivial
    · exact .inl (first.1.wrote wrote zero).mark
  exact written.bind fun ok u spoiled => .ite (unlock_spoiled spoiled _) (unlock_spoiled spoiled _)

/-- The blocks of the file, with the inode's own block taken. -/
theorem createBlocks_spoiled (marked : SuperMarked l p s) (index numblocks : Nat) :
    (do
      let ready ←
        if NEWFS_BLOCKS_DIRECT + NEWFS_BLOCKS_SINDIR < numblocks then
          newfsAllocZeroed (inodeBuffer + dblIndirWord) 1
        else pure true
      if ready then do
        let done ← newfsAllocBlocks numblocks 0
        if done then newfsCreateStore index else NewFs.unlock VFS_ERROR
      else NewFs.unlock VFS_ERROR : Prog NewFs Int).Keeps s fun _ t =>
        Spoiled p (s.memory inodeBuffer) t := by
  have rest {t : NewFs} (ready : Bool) (marked : SuperMarked l p t)
      (inode : t.memory inodeBuffer = s.memory inodeBuffer)
      (chosen : ready = true → NEWFS_BLOCKS_DIRECT + NEWFS_BLOCKS_SINDIR < numblocks →
        t.memory (inodeBuffer + dblIndirWord) ≠ 0) :
      (if ready then do
          let done ← newfsAllocBlocks numblocks 0
          if done then newfsCreateStore index else NewFs.unlock VFS_ERROR
        else NewFs.unlock VFS_ERROR : Prog NewFs Int).Keeps t fun _ u =>
          Spoiled p (s.memory inodeBuffer) u := by
    cases ready with
    | false => exact unlock_spoiled (.inl marked.mark) _
    | true =>
        refine (newfsAllocBlocks_keeping marked numblocks (chosen rfl)).bind fun done u filled => ?_
        obtain ⟨same, marked⟩ := filled
        refine .ite ?_ (unlock_spoiled (.inl marked.mark) _)
        rw [← inode, ← same]
        exact newfsCreateStore_spoiled marked index
  by_cases large : NEWFS_BLOCKS_DIRECT + NEWFS_BLOCKS_SINDIR < numblocks
  · rw [if_pos large]
    refine (newfsAllocZeroed_keeping marked _ 1).bind fun ready t alloc => ?_
    refine rest ready alloc.1.1 (alloc.1.2 _ (.inl (by decide))) fun ready _ => ?_
    exact alloc.2 ready _ (Nat.le_refl _) (Nat.lt_succ_self _)
  · rw [if_neg large]
    exact rest true marked rfl fun _ more => absurd more large

/-- The entry names its inode block, and the inode is set up in memory. -/
def NewFs.withInode (u : NewFs) (index q size : Nat) : NewFs :=
  (((u.setWord (entryWord index) (BitVec.ofNat 32 q)).setWord inodeBuffer (BitVec.ofNat 32 size)).setWord
    (inodeBuffer + indirWord) 0).setWord (inodeBuffer + dblIndirWord) 0

theorem NewFs.withInode_same (u : NewFs) (index q size : Nat) : NewFs.SameDisk u (u.withInode index q size) :=
  ⟨rfl, rfl, rfl, rfl⟩

theorem NewFs.withInode_inode (u : NewFs) (index q size : Nat) :
    (u.withInode index q size).memory inodeBuffer = BitVec.ofNat 32 size := rfl

theorem NewFs.withInode_entry (u : NewFs) (index q size : Nat) :
    (u.withInode index q size).memory (entryWord index) = BitVec.ofNat 32 q := by
  have late : 256 ≤ entryWord index := Nat.le_add_right _ _
  simp only [withInode, NewFs.setWord]
  rw [Function.update_of_ne, Function.update_of_ne, Function.update_of_ne, Function.update_self]
  · unfold inodeBuffer
    omega
  · unfold inodeBuffer indirWord
    omega
  · unfold inodeBuffer dblIndirWord
    omega

/-- **A creation that takes a block** leaves a mark where the superblock was clear, or an inode in
its place. -/
theorem newfsCreateAlloc_spoiled (marked : SuperMarked l 0 s) (index numblocks size : Nat) :
    (newfsCreateAlloc index numblocks size).Keeps s fun _ t =>
      ∃ q < NEWFS_BLOCK_BITS, bitmapGet (s.disk.blocks 0) q = false ∧ Spoiled q (BitVec.ofNat 32 size) t := by
  refine (newfsBmAlloc_marked marked _).bind fun ok t taken => ?_
  obtain ⟨rfl, q, u, allocated, rfl⟩ := taken
  have here := (marked.allocated allocated).2.1.same (u.withInode_same index q size)
  have blocks := createBlocks_spoiled here index numblocks
  rw [u.withInode_inode] at blocks
  exact Prog.Keeps.mono blocks fun _ t spoiled => ⟨q, allocated.small, allocated.clear, spoiled⟩

/-- A negative number of blocks fails the first assertion of the search. -/
theorem newfsCreateAlloc_negative (negative : s.totalblocks.toInt < 0) (index numblocks size : Nat)
    {Q : Int → NewFs → Prop} : (newfsCreateAlloc index numblocks size).Keeps s Q := by
  refine Prog.Keeps.bind (Q := fun _ _ => False) ?_ fun _ _ never => never.elim
  refine .gets_bind (Prog.Keeps.bind (Q := fun _ _ => False) ?_ fun _ _ never => never.elim)
  exact .assert_bind fun nonneg => absurd (of_decide_eq_true nonneg) (by omega)

end Allocations

/-! ## Creating and removing -/

/-- The superblock, the allocation blocks and the directory are as before. -/
def SameMetadata (s t : NewFs) : Prop :=
  ∀ b ≤ (newfsDirectoryBlock s.totalblocks).toNat, ∀ w < 128, t.disk.blocks b w = s.disk.blocks b w

/-- The allocation blocks are as before, and so are the directory entries but one. -/
structure Restored (s u : NewFs) : Prop where
  allocation : ∀ b, NEWFS_ALLOCATION_BLOCK ≤ b → b < (newfsDirectoryBlock s.totalblocks).toNat →
    ∀ w < 128, u.disk.blocks b w = s.disk.blocks b w
  others : ∃ index, ∀ w < 5 * DIRECTORY_ENTRIES, w / 5 ≠ index →
    u.disk.blocks (newfsDirectoryBlock s.totalblocks).toNat w =
      s.disk.blocks (newfsDirectoryBlock s.totalblocks).toNat w

/-- A creation that fails changes no metadata, and one that succeeds is undone by a removal, as far
as `restored` says. -/
def Undone (restored : NewFs → NewFs → Prop) (s : NewFs) (filename : Name) (size : CInt) : Prop :=
  ∃ r t, newfsCreate filename size s = .returned (r, t) ∧ (r ≠ VFS_OK → SameMetadata s t) ∧
    (r = VFS_OK → ∃ u, newfsRemove filename t = .returned (VFS_OK, u) ∧ restored s u)

/-- The metadata as a whole: the superblock, which the search marks, too. -/
def RestoredAll (s u : NewFs) : Prop :=
  (∀ w < 128, u.disk.blocks 0 w = s.disk.blocks 0 w) ∧ Restored s u

/-- The creation ends before it takes a block: the file is too large, the search for the name meets
it, no entry is unused, or the search for a block does not enter its loop. -/
def CreateRefused (s : NewFs) (filename : Name) (size : CInt) : Prop :=
  NEWFS_MAX_BLOCKS < newfsNumblocks size ∨
    (∃ k < NEWFS_MAX_FILES, hasName s.opened.memory filename k = true) ∨
    (∀ k < NEWFS_MAX_FILES, isUsed s.opened.memory k = true) ∨
    s.totalblocks.toInt = 0 ∨ 0x7ffff000 < s.totalblocks.toInt

theorem lastUnused_eq_none {memory : Block} {n i : Nat} {index : Option Nat} :
    lastUnused memory n i index = none ↔
      index = none ∧ ∀ k, i ≤ k → k < i + n → isUsed memory k = true := by
  induction n generalizing i index with
  | zero =>
      refine ⟨fun same => ⟨same, fun k low high => by omega⟩, fun both => both.1⟩
  | succ n ih =>
      have step : lastUnused memory (n + 1) i index =
          lastUnused memory n (i + 1) (if isUsed memory i then index else some i) := rfl
      rw [step, ih]
      cases used : isUsed memory i with
      | true =>
          rw [if_pos rfl]
          refine and_congr_right fun _ =>
            ⟨fun later k low high => ?_, fun all k low high => all k (by omega) (by omega)⟩
          rcases Nat.eq_or_lt_of_le low with rfl | more
          · exact used
          · exact later k more (by omega)
      | false =>
          rw [if_neg (by decide)]
          refine iff_of_false (fun both => by cases both.1) fun both => ?_
          have here := both.2 i (Nat.le_refl i) (by omega)
          rw [used] at here
          cases here

section Inverse

variable {s : NewFs} {filename : Name} {size : CInt}

/-- The search of the creation, and what it found. -/
theorem createSlot_cases (idle : s.Idle) (filename : Name) (size : CInt) :
    ∃ slot t, newfsCreateSlot filename size s = .returned (slot, t) ∧ NewFs.SameDisk s t ∧
      ((slot = .inl VFS_ERROR ∧ CreateRefused s filename size) ∨
        ∃ index, slot = .inr index ∧ (CreateRefused s filename size ↔
          s.totalblocks.toInt = 0 ∨ 0x7ffff000 < s.totalblocks.toInt)) := by
  by_cases large : NEWFS_MAX_BLOCKS < newfsNumblocks size
  · have ran : newfsCreateSlot filename size s =
        .returned (.inl VFS_ERROR, { s.locked with lock := s.locked.lock + 1 }) := by
      rw [newfsCreateSlot, Prog.bind_of_returned (NewFs.lockP_idle idle), if_pos large]
      rfl
    exact ⟨_, _, ran, NewFs.createSlot_same _ _ _ _ _ ran, .inl ⟨rfl, .inl large⟩⟩
  · obtain ⟨slot, t, ran, -, slot_eq⟩ := newfsCreateSlot_eq idle filename (Nat.le_of_not_lt large)
    refine ⟨slot, t, ran, NewFs.createSlot_same _ _ _ _ _ ran, ?_⟩
    by_cases named : scan (hasName s.opened.memory filename) NEWFS_MAX_FILES 0 < NEWFS_MAX_FILES
    · rw [if_pos named] at slot_eq
      exact .inl ⟨slot_eq, .inr (.inl ⟨_, named, scan_found NEWFS_MAX_FILES 0 (by omega)⟩)⟩
    · rw [if_neg named] at slot_eq
      have unnamed : ¬∃ k < NEWFS_MAX_FILES, hasName s.opened.memory filename k = true := by
        rintro ⟨k, low, hit⟩
        have stops := scan_le_hit NEWFS_MAX_FILES 0 (Nat.zero_le k) hit
        omega
      cases last : lastUnused s.opened.memory NEWFS_MAX_FILES 0 none with
      | none =>
          rw [last] at slot_eq
          have full := (lastUnused_eq_none.1 last).2
          exact .inl ⟨slot_eq, .inr (.inr (.inl fun k low => full k (Nat.zero_le k) (by omega)))⟩
      | some index =>
          rw [last] at slot_eq
          have room : ¬∀ k < NEWFS_MAX_FILES, isUsed s.opened.memory k = true := by
            intro full
            have missed : lastUnused s.opened.memory NEWFS_MAX_FILES 0 none = none :=
              lastUnused_eq_none.2 ⟨rfl, fun k _ high => full k (by omega)⟩
            rw [last] at missed
            cases missed
          refine .inr ⟨index, slot_eq, ?_⟩
          rw [CreateRefused, or_iff_right large, or_iff_right unnamed, or_iff_right room]

/-- A search that does not enter its loop fails the creation, and nothing is marked. -/
theorem newfsCreateAlloc_leaves (leaves : s.totalblocks.toInt = 0 ∨ 0x7ffff000 < s.totalblocks.toInt)
    (index numblocks bytes : Nat) :
    ∃ t, newfsCreateAlloc index numblocks bytes s = .returned (VFS_ERROR, t) ∧
      t.disk.blocks = s.disk.blocks := by
  have int := @BitVec.toInt_lt 32 s.totalblocks
  have search := blockbitmapFindnset_leaves (l := s.totalblocks.toInt) (by omega) (by omega) (by omega) s
  have alloc : newfsBmAlloc (entryWord index) s =
      .returned (false, s.setWord (entryWord index) (BitVec.ofInt 32 (-1))) := by
    rw [newfsBmAlloc, Prog.bind_gets_apply, Prog.bind_of_returned search]
    rfl
  rw [newfsCreateAlloc, Prog.bind_of_returned alloc]
  exact ⟨_, rfl, rfl⟩

theorem newfsCreateAt_leaves {t : NewFs} (idle : s.Idle) (same : NewFs.SameDisk s t)
    (leaves : s.totalblocks.toInt = 0 ∨ 0x7ffff000 < s.totalblocks.toInt) (index numblocks bytes : Nat) :
    ∃ u, newfsCreateAt filename index numblocks bytes t = .returned (VFS_ERROR, u) ∧
      u.disk.blocks = s.disk.blocks := by
  obtain ⟨v, named⟩ : ∃ v, v =
      { t with memory := copyName t.memory (entryNameByte index) filename NEWFS_FILENAME_MAX } := ⟨_, rfl⟩
  have unchanged : NewFs.SameDisk s v := named ▸ ⟨same.blocks, same.answers, same.totalBlocks, same.totalblocks⟩
  have served : v.Served := by
    constructor
    · rw [unchanged.answers]
      exact idle.answers
    · rw [unchanged.totalblocks, unchanged.totalBlocks]
      exact idle.onDisk
  have onDisk : (BitVec.ofNat 32 NEWFS_ALLOCATION_BLOCK).toNat < v.disk.totalBlocks :=
    Nat.lt_of_le_of_lt (directoryBlock_positive v.totalblocks) served.onDisk
  have read := NewFs.readBlock_served served onDisk batBuffer
  obtain ⟨u, alloc, blocks⟩ := newfsCreateAlloc_leaves (s := (v.didAsk _).load batBuffer _)
    (unchanged.totalblocks ▸ leaves) index numblocks bytes
  refine ⟨u, ?_, blocks.trans unchanged.blocks⟩
  rw [newfsCreateAt, Prog.bind_modify_apply, ← named, Prog.bind_of_returned read, if_pos rfl]
  exact alloc

/-- A creation with an entry chosen is what its allocations are. -/
theorem newfsCreateAt_keeps {t : NewFs} (idle : s.Idle) (same : NewFs.SameDisk s t)
    {index numblocks bytes : Nat} {Q : Int → NewFs → Prop}
    (alloc : ∀ v, NewFs.SameDisk s v → (newfsCreateAlloc index numblocks bytes).Keeps v Q) :
    (newfsCreateAt filename index numblocks bytes).Keeps t Q := by
  refine Prog.Keeps.bind (Q := fun _ u => NewFs.SameDisk s u) ?_ fun _ u here => ?_
  · intro _ u ran
    cases ran
    exact ⟨same.blocks, same.answers, same.totalBlocks, same.totalblocks⟩
  have loads : (NewFs.readBlock (BitVec.ofNat 32 NEWFS_ALLOCATION_BLOCK) batBuffer).Keeps u
      fun loaded v => loaded = true ∧ NewFs.SameDisk s v := by
    intro loaded v ran
    obtain ⟨read, served, -⟩ := NewFs.readBlock_returned ran
    refine ⟨served ?_, Trans.trans here read⟩
    rw [here.answers]
    exact idle.answers
  refine loads.bind fun loaded v both => ?_
  obtain ⟨rfl, here⟩ := both
  exact alloc v here

/-- The magic number has its first bit set. -/
theorem marked_magic {v : NewFs} (idle : s.Idle) (magic : s.disk.blocks 0 0 = NEWFS_MAGIC)
    (same : NewFs.SameDisk s v) (enters : 0 < s.totalblocks.toInt ∧ s.totalblocks.toInt ≤ 0x7ffff000) :
    SuperMarked s.totalblocks 0 v := by
  have first : bitmapGet (v.disk.blocks 0) 0 = true := by
    rw [same.blocks, bitmapGet, magic]
    decide
  refine ⟨?_, same.totalblocks, first, first, enters⟩
  rw [same.answers]
  exact idle.answers

theorem newfsCreateAt_spoiled {t : NewFs} (idle : s.Idle) (magic : s.disk.blocks 0 0 = NEWFS_MAGIC)
    (same : NewFs.SameDisk s t)
    (enters : ¬(s.totalblocks.toInt = 0 ∨ 0x7ffff000 < s.totalblocks.toInt)) (index numblocks bytes : Nat) :
    (newfsCreateAt filename index numblocks bytes).Keeps t fun _ u =>
      ∃ q < NEWFS_BLOCK_BITS, bitmapGet (s.disk.blocks 0) q = false ∧ Spoiled q (BitVec.ofNat 32 bytes) u := by
  refine newfsCreateAt_keeps idle same fun v here => ?_
  by_cases negative : s.totalblocks.toInt < 0
  · rw [← here.totalblocks] at negative
    exact newfsCreateAlloc_negative negative _ _ _
  · have marked := marked_magic idle magic here ⟨by omega, by omega⟩
    rw [← here.blocks]
    exact newfsCreateAlloc_spoiled marked index numblocks bytes

/-- **The superblock is spoiled** when the creation takes a block: some word of it has changed. -/
theorem newfsCreate_spoils (idle : s.Idle) (magic : s.disk.blocks 0 0 = NEWFS_MAGIC) (nonneg : 0 ≤ size.val)
    (taken : ¬CreateRefused s filename size) :
    (newfsCreate filename size).Keeps s fun _ t => ¬∀ w < 128, t.disk.blocks 0 w = s.disk.blocks 0 w := by
  obtain ⟨slot, t, ran, same, ⟨-, refused⟩ | ⟨index, rfl, exact_⟩⟩ := createSlot_cases idle filename size
  · exact absurd refused taken
  intro r u created
  rw [newfsCreate, Prog.bind_of_returned ran] at created
  obtain ⟨q, small, clear, spoiled⟩ :=
    newfsCreateAt_spoiled idle magic same (mt exact_.2 taken) index _ _ r u created
  intro unchanged
  rcases spoiled with set | inode
  · have word : q / 32 < 128 := by
      have : q < 4096 := small
      omega
    rw [bitmapGet, unchanged _ word] at set
    rw [bitmapGet, set] at clear
    cases clear
  · -- the magic number is not the size of a file
    have value := congrArg BitVec.toNat ((unchanged 0 (by decide)).symm.trans inode)
    have bound := size.property.2
    rw [magic, BitVec.toNat_ofNat, toUint32] at value
    have : NEWFS_MAGIC.toNat = 0xFEEDBEEF := rfl
    omega

/-- **Create and remove undo each other only where the creation takes no block.** -/
theorem newfs_inverse_exact (s : NewFs) (idle : s.Idle) (magic : s.disk.blocks 0 0 = NEWFS_MAGIC)
    (filename : Name) (size : CInt) (nonneg : 0 ≤ size.val) :
    (Undone RestoredAll s filename size ↔ CreateRefused s filename size) ∧
      (CreateRefused s filename size → Undone Restored s filename size) := by
  have refuses (restored : NewFs → NewFs → Prop) (refused : CreateRefused s filename size) :
      Undone restored s filename size := by
    have fails : ∃ t, newfsCreate filename size s = .returned (VFS_ERROR, t) ∧
        t.disk.blocks = s.disk.blocks := by
      obtain ⟨slot, t, ran, same, ⟨rfl, -⟩ | ⟨index, rfl, exact_⟩⟩ := createSlot_cases idle filename size
      · exact ⟨t, by rw [newfsCreate, Prog.bind_of_returned ran]; rfl, same.blocks⟩
      · rw [newfsCreate, Prog.bind_of_returned ran]
        exact newfsCreateAt_leaves idle same (exact_.1 refused) index _ _
    obtain ⟨t, ran, blocks⟩ := fails
    refine ⟨VFS_ERROR, t, ran, fun _ b _ w _ => by rw [blocks], fun ok => ?_⟩
    exact absurd ok (by decide)
  refine ⟨⟨fun undone => ?_, refuses RestoredAll⟩, refuses Restored⟩
  by_contra taken
  obtain ⟨r, t, created, fails, succeeds⟩ := undone
  have spoils := newfsCreate_spoils idle magic nonneg taken r t created
  by_cases ok : r = VFS_OK
  · obtain ⟨u, removed, superblock, -⟩ := succeeds ok
    have kept := (newfsRemove_cleared filename t _ u removed).superblock
    exact spoils fun w low => by rw [← kept, superblock w low]
  · exact spoils fun w low => fails ok 0 (Nat.zero_le _) w low

end Inverse

/-! ## A file without blocks -/

section Empty

variable {l : Word} {p : Nat} {s : NewFs}

/-- The inode ends up in the block that its entry names. -/
theorem newfsCreateStore_stored (marked : SuperMarked l p s) {index : Nat}
    (named : s.memory (entryWord index) = BitVec.ofNat 32 p) (small : p < NEWFS_BLOCK_BITS)
    (nonzero : p ≠ 0) :
    (newfsCreateStore index).Keeps s fun r t => r = VFS_OK →
      SuperMarked l p t ∧ t.disk.blocks p 0 = s.memory inodeBuffer := by
  have word : (BitVec.ofNat 32 p).toNat = p := by
    have : p < 4096 := small
    rw [BitVec.toNat_ofNat]
    omega
  refine .gets_bind ?_
  refine (writeBuffer_keeping marked mdBuffer (directoryBlock_ne_zero _)).bind fun stored t first => ?_
  refine .ite (.gets_bind ?_) (fun r u ran => by cases ran; exact fun ok => absurd ok (by decide))
  rw [first.2 _ trivial, named]
  intro r u ran
  obtain ⟨ok, v, written, ran⟩ := Prog.bind_returned.1 ran
  have wrote := NewFs.writeBuffer_returned written
  rw [word] at wrote
  have served := wrote.served first.1.answers
  subst served
  rw [if_pos rfl] at ran
  have same := NewFs.unlock_same _ _ _ _ ran
  refine fun _ => ⟨(first.1.wrote wrote nonzero).same same, ?_⟩
  rw [same.blocks, wrote.blocks, if_pos rfl, Function.update_self]
  exact first.2 _ trivial

theorem newfsAllocBlocks_none (marked : SuperMarked l p s) :
    (newfsAllocBlocks 0 0).Keeps s fun _ t => Keeping l p (fun w => w < 1 ∨ 8 ≤ w) s t := by
  rw [newfsAllocBlocks, if_pos (by decide)]
  refine (newfsAllocZeroed_keeping marked _ 0).bind fun done t alloc => ?_
  have first : Keeping l p (fun w => w < 1 ∨ 8 ≤ w) s t := ⟨alloc.1.1, fun w _ => alloc.1.2 w (by omega)⟩
  refine .ite ?_ (.pure first)
  refine (newfsClearWords_keeping first.1 _ _).bind fun _ u cleared => ?_
  have second := first.trans cleared
  exact (newfsStoreBat_keeping second.1).mono fun _ v last => second.trans ⟨last.1, fun w _ => last.2 w trivial⟩

/-- An empty file takes the first clear position for its inode. -/
theorem newfsCreateAlloc_empty (marked : SuperMarked l 0 s) (index : Nat) :
    (newfsCreateAlloc index 0 0).Keeps s fun r t => r = VFS_OK →
      ∃ q u, SuperTaken q s u ∧ SuperMarked l q t ∧ t.disk.blocks q 0 = 0 := by
  refine (newfsBmAlloc_marked marked _).bind fun ok t taken => ?_
  obtain ⟨rfl, q, u, allocated, rfl⟩ := taken
  obtain ⟨-, here, nonzero⟩ := marked.allocated allocated
  have blocks : (do
      let done ← newfsAllocBlocks 0 0
      if done then newfsCreateStore index else NewFs.unlock VFS_ERROR : Prog NewFs Int).Keeps
        (u.withInode index q 0) fun r t => r = VFS_OK →
          ∃ q u, SuperTaken q s u ∧ SuperMarked l q t ∧ t.disk.blocks q 0 = 0 := by
    refine (newfsAllocBlocks_none (here.same (u.withInode_same index q 0))).bind fun done w kept => ?_
    refine .ite ?_ (fun r t ran => by cases ran; exact fun ok => absurd ok (by decide))
    have named : w.memory (entryWord index) = BitVec.ofNat 32 q := by
      rw [kept.2 _ (.inr (by unfold entryWord mdBuffer; omega)), u.withInode_entry]
    refine (newfsCreateStore_stored kept.1 named allocated.small nonzero).mono fun r t stored ok => ?_
    obtain ⟨marked, content⟩ := stored ok
    exact ⟨q, u, allocated, marked, by rw [content, kept.2 _ (.inl (by decide))]; rfl⟩
  exact blocks

end Empty

/-! ## A volume with five allocation blocks -/

/-- 20000 blocks, of which the metadata and block 12288 are in use: the inode of the empty file
`b`, marked by the first bit of block 4. -/
def crowdedNewFs : NewFs where
  disk :=
    { blocks := fun b w =>
        if b = 0 then if w = 0 then NEWFS_MAGIC else if w = 1 then 0x76000000 else if w = 5 then 20000 else 0
        else if b = 1 then if w = 0 then 0x7f else 0
        else if b = 4 then if w = 0 then 1 else 0
        else if b = 6 then if w = 0 then 12288 else if w = 1 then 0x62000000 else 0
        else 0
      totalBlocks := 20000
      answers := fun _ => true
      asked := 0
      served := [] }
  totalblocks := 20000
  lock := 1
  memory := fun _ => 0xffffffff
  stack := fun _ _ => 0
  indexed := []

theorem letter_nonzero : (0x61#8 : Byte) ≠ 0 := by decide

theorem zero_int : -0x80000000 ≤ (0 : Int) ∧ (0 : Int) < 0x80000000 := by decide

def crowdedName : Name := [⟨0x61#8, letter_nonzero⟩]

def emptySize : CInt := ⟨0, zero_int⟩

theorem crowdedNewFs_idle : crowdedNewFs.Idle := ⟨⟨fun _ => rfl, by decide⟩, by decide, rfl⟩

theorem crowdedNewFs_directory : (newfsDirectoryBlock crowdedNewFs.totalblocks).toNat = 6 := by decide

theorem crowdedNewFs_memory (i : Nat) : crowdedNewFs.opened.memory i =
    if 256 ≤ i ∧ i < 384 then if i = 256 then 12288 else if i = 257 then 0x62000000 else 0
    else 0xffffffff := by
  have read : crowdedNewFs.opened.memory i = if mdBuffer ≤ i ∧ i < mdBuffer + 128 then
      crowdedNewFs.disk.blocks (newfsDirectoryBlock crowdedNewFs.totalblocks).toNat (i - mdBuffer)
    else crowdedNewFs.memory i := rfl
  rw [read, crowdedNewFs_directory]
  simp only [crowdedNewFs, mdBuffer]
  split
  · rename_i inside
    simp only [show i - 256 = 0 ↔ i = 256 by omega, show i - 256 = 1 ↔ i = 257 by omega]
    rfl
  · rfl

/-- No byte of the memory is the letter. -/
theorem crowdedNewFs_unnamed (k : Nat) : hasName crowdedNewFs.opened.memory crowdedName k = false := by
  have letters : ∀ w : Word, w = 12288 ∨ w = 0x62000000 ∨ w = 0 ∨ w = 0xffffffff →
      ∀ j < 4, w.extractLsb' (8 * (3 - j)) 8 ≠ 0x61#8 := by
    rintro w (rfl | rfl | rfl | rfl) <;> decide
  have byte (pos : Nat) : crowdedNewFs.opened.memory.byte pos ≠ 0x61#8 := by
    refine letters _ ?_ (pos % 4) (Nat.mod_lt _ (by decide))
    rw [crowdedNewFs_memory]
    split_ifs <;> simp
  have differ : stringcmpAt crowdedNewFs.opened.memory (entryNameByte k) crowdedName ≠ 0 := by
    rw [crowdedName, stringcmpAt, if_pos (byte _)]
    intro zero
    refine byte (entryNameByte k) (BitVec.eq_of_toNat_eq ?_)
    change ((crowdedNewFs.opened.memory.byte (entryNameByte k)).toNat : Int) - 0x61 = 0 at zero
    change _ = 0x61
    omega
  exact decide_eq_false differ

theorem crowdedNewFs_taken : ¬CreateRefused crowdedNewFs crowdedName emptySize := by
  rintro (large | ⟨k, -, named⟩ | full | none | many)
  · exact absurd large (by decide)
  · rw [crowdedNewFs_unnamed] at named
    cases named
  · have unused : isUsed crowdedNewFs.opened.memory 1 = false := by
      rw [isUsed, crowdedNewFs_memory]
      decide
    rw [full 1 (by decide)] at unused
    cases unused
  · exact absurd none (by decide)
  · exact absurd many (by decide)

/-- The first clear bit of the magic number is bit 4. -/
theorem magic_clear {q : Nat} {block : Block} (magic : block 0 = NEWFS_MAGIC)
    (clear : bitmapGet block q = false) (before : ∀ k < q, bitmapGet block k = true) : q = 4 := by
  have bits : ∀ k < 32, bitmapGet block k = NEWFS_MAGIC.getLsbD k := by
    intro k low
    rw [bitmapGet, Nat.div_eq_of_lt low, Nat.mod_eq_of_lt low, magic]
  have small : q ≤ 4 := by
    by_contra above
    have set := before 4 (by omega)
    rw [bits 4 (by decide)] at set
    exact absurd set (by decide)
  rcases Nat.lt_or_eq_of_le small with below | same
  · rw [bits q (by omega)] at clear
    have lowest : ∀ k < 4, NEWFS_MAGIC.getLsbD k = true := by decide
    rw [lowest q below] at clear
    cases clear
  · exact same

/-- The inode of the empty file goes to block 4, the first position that is clear in the magic
number, and the removal does not give the allocation block back. -/
theorem newfs_inverse_crowded : ¬Undone Restored crowdedNewFs crowdedName emptySize := by
  rintro ⟨r, t, created, fails, succeeds⟩
  have spoils := newfsCreate_spoils crowdedNewFs_idle rfl (Int.le_refl 0) crowdedNewFs_taken r t created
  have ok : r = VFS_OK := by
    by_contra failed
    exact spoils fun w low => fails failed 0 (Nat.zero_le _) w low
  obtain ⟨u, removed, restored⟩ := succeeds ok
  -- the run of the creation, down to its allocations
  obtain ⟨slot, v, ran, same, ⟨-, refused⟩ | ⟨index, rfl, -⟩⟩ :=
    createSlot_cases crowdedNewFs_idle crowdedName emptySize
  · exact crowdedNewFs_taken refused
  have empty : newfsNumblocks emptySize = 0 ∧ toUint32 emptySize.val = 0 := by decide
  rw [newfsCreate, Prog.bind_of_returned ran] at created
  change newfsCreateAt crowdedName index (newfsNumblocks emptySize) (toUint32 emptySize.val) v =
    .returned (r, t) at created
  rw [empty.1, empty.2] at created
  have stored : (newfsCreateAt crowdedName index 0 0).Keeps v fun r t => r = VFS_OK →
      SuperMarked crowdedNewFs.totalblocks 4 t ∧ t.disk.blocks 4 0 = 0 := by
    refine newfsCreateAt_keeps crowdedNewFs_idle same fun w here => ?_
    have marked := marked_magic crowdedNewFs_idle rfl here (by decide)
    refine (newfsCreateAlloc_empty marked index).mono fun r t stored ok => ?_
    obtain ⟨q, x, allocated, mark, zero⟩ := stored ok
    have magic : w.disk.blocks 0 0 = NEWFS_MAGIC := by
      rw [here.blocks]
      rfl
    obtain rfl := magic_clear magic allocated.clear allocated.before
    exact ⟨mark, zero⟩
  obtain ⟨marked, zero⟩ := stored r t created ok
  -- the removal clears bits only, and bit 0 of block 4 is to be set again
  have cleared := newfsRemove_cleared crowdedName t _ u removed
  have apart : 4 ≠ (newfsDirectoryBlock t.totalblocks).toNat := by
    rw [marked.totalblocks, crowdedNewFs_directory]
    decide
  have word : u.disk.blocks 4 0 = 1 := by
    rw [restored.allocation 4 (by decide) (by rw [crowdedNewFs_directory]; decide) 0 (by decide)]
    rfl
  have set := cleared.bits marked.answers 4 (by decide) apart 0 (by rw [bitmapGet, word]; decide)
  rw [bitmapGet, zero] at set
  exact absurd set (by decide)

theorem newfs_inverse_exact_large :
    Undone RestoredAll crowdedNewFs crowdedName ⟨0x7fffffff, by decide⟩ :=
  (newfs_inverse_exact crowdedNewFs crowdedNewFs_idle rfl crowdedName ⟨0x7fffffff, by decide⟩ (by decide)).1.2
    (.inl (by decide))

end Buenos.Fs
