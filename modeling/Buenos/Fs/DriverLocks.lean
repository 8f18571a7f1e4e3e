/-
# Fs.DriverLocks -- the lock of a driver

Every operation of TFS and FlatFS but the unmount takes the lock of its volume and gives
it back on each of its returns.  The helpers under them do not touch it, and from the
point where an operation holds the lock each path adds one to it.
-/
import Buenos.Fs.Tfs
import Buenos.Theory.Balance
import Mathlib.Algebra.Group.Int.Defs

namespace Buenos.Fs

open Buenos.Lib Buenos.Theory Buenos.Theory.Prog

set_option autoImplicit false
set_option linter.unusedSectionVars false

/-! ## Requests -/

section Requests

variable {β : Type} [DecidableEq β]

theorem lockP_adds : Adds Volume.lock (lockP : Prog (Volume β) Unit) fun _ => -1 := by
  intro s a t ran
  unfold lockP at ran
  split at ran
  · cases ran
    rfl
  · cases ran

theorem unlock_adds {α : Type} (result : α) :
    Adds Volume.lock (unlock result : Prog (Volume β) α) fun _ => 1 := by
  intro s a t ran
  cases ran
  rfl

/-- An operation whose every path after `semaphore_P` gives the lock back. -/
theorem locked {α : Type} {m : Prog (Volume β) α} (gives : Adds Volume.lock m fun _ => 1) :
    Balanced Volume.lock (do lockP; m) :=
  lockP_adds.bind fun _ => gives

theorem readBlock_balanced (block : Word) (b : β) : Balanced Volume.lock (readBlock block b) := by
  apply balanced_of_same
  intro s a t ran
  unfold readBlock at ran
  split at ran
  · cases ran
    rfl
  · cases ran
    rfl
  · cases ran

theorem writeBlock_balanced (block : Word) (content : Block) :
    Balanced Volume.lock (writeBlock block content : Prog (Volume β) Bool) :=
  .zoom fun _ _ _ _ => rfl

theorem writeBuffer_balanced (block : Word) (b : β) :
    Balanced Volume.lock (writeBuffer block b) := fun s =>
  writeBlock_balanced block (s.buffer b) s

theorem setBuffer_balanced (b : β) (content : Volume β → Block) :
    Balanced Volume.lock (Prog.modify fun s : Volume β => s.setBuffer b (content s)) :=
  .modify fun _ => rfl

theorem setWord_balanced (b : β) (i : Nat) (w : Word) :
    Balanced Volume.lock (Prog.modify fun s : Volume β => s.setWord b i w) := .modify fun _ => rfl

end Requests

/-! ## FlatFS helpers -/

theorem flatfsBmAlloc_balanced (b : FlatBuffer) (i : Nat) :
    Balanced Volume.lock (flatfsBmAlloc b i) := by
  apply balanced_of_same
  intro s a t ran
  unfold flatfsBmAlloc at ran
  split at ran <;>
  · cases ran
    rfl

theorem allocZeroed_balanced (b : FlatBuffer) (i n : Nat) :
    Balanced Volume.lock (allocZeroed b i n) := by
  induction n generalizing i with
  | zero => exact .pure rfl
  | succ n ih =>
      refine .branch (flatfsBmAlloc_balanced b i) ?_ (.pure rfl)
      refine .skip (.gets _) fun block => ?_
      exact .branch (writeBlock_balanced block zeroblock) (ih (i + 1)) (.pure rfl)

theorem clearWords_balanced (b : FlatBuffer) (lo hi : Nat) :
    Balanced Volume.lock (clearWords b lo hi) := .modify fun _ => rfl

theorem fillIndir_balanced (todbl : Option Nat) (numblocks offset : Nat) :
    Balanced Volume.lock (fillIndir todbl numblocks offset) := by
  refine .skip (.gets _) fun ind => ?_
  refine .branch (readBlock_balanced ind _) ?_ (.pure rfl)
  refine .branch (allocZeroed_balanced .si offset numblocks) ?_ (.pure rfl)
  refine .skip (clearWords_balanced _ _ _) fun _ => .skip (.gets _) fun ind => ?_
  exact writeBuffer_balanced ind _

theorem flatfsAllocIndir_balanced (todbl : Option Nat) (numblocks offset : Nat) :
    Balanced Volume.lock (flatfsAllocIndir todbl numblocks offset) := by
  refine .skip (.assert _ _) fun _ => .skip (.gets _) fun ind => ?_
  have filled := fillIndir_balanced todbl numblocks offset
  refine .ite (.branch (flatfsBmAlloc_balanced _ _) filled (.pure rfl)) ?_
  exact .branch (.pure rfl) filled (.pure rfl)

theorem allocDouble_balanced (rounds i numblocks offset : Nat) :
    Balanced Volume.lock (allocDouble rounds i numblocks offset) := by
  induction rounds generalizing i numblocks offset with
  | zero => exact .pure rfl
  | succ rounds ih =>
      refine .ite (.pure rfl) ?_
      exact .branch (flatfsAllocIndir_balanced _ _ _) (ih _ _ _) (.pure rfl)

theorem storeBat_balanced : Balanced Volume.lock storeBat := writeBuffer_balanced _ _

theorem allocBlocksDouble_balanced (numblocks offset : Nat) :
    Balanced Volume.lock (allocBlocksDouble numblocks offset) := by
  refine .ite ?_ storeBat_balanced
  refine .skip (.gets _) fun dbl => ?_
  refine .branch (readBlock_balanced dbl _) ?_ (.pure rfl)
  refine .branch (allocDouble_balanced _ _ _ _) ?_ (.pure rfl)
  refine .skip (.gets _) fun dbl => ?_
  exact .branch (writeBuffer_balanced dbl _) storeBat_balanced (.pure rfl)

theorem allocBlocksSingle_balanced (numblocks offset : Nat) :
    Balanced Volume.lock (allocBlocksSingle numblocks offset) := by
  refine .ite ?_ (allocBlocksDouble_balanced _ _)
  exact .branch (flatfsAllocIndir_balanced _ _ _) (allocBlocksDouble_balanced _ _) (.pure rfl)

theorem flatfsAllocBlocks_balanced (numblocks offset : Nat) :
    Balanced Volume.lock (flatfsAllocBlocks numblocks offset) := by
  refine .ite ?_ (allocBlocksSingle_balanced _ _)
  refine .branch (allocZeroed_balanced _ _ _) ?_ (.pure rfl)
  exact .skip (clearWords_balanced _ _ _) fun _ => allocBlocksSingle_balanced _ _

theorem flatfsFree_balanced (block : Word) : Balanced Volume.lock (flatfsFree block) := by
  refine .skip (.assert _ _) fun _ => .skip (.assert _ _) fun _ => ?_
  exact .modify fun _ => rfl

theorem freeNamed_balanced (b : FlatBuffer) (i n : Nat) :
    Balanced Volume.lock (freeNamed b i n) := by
  induction n generalizing i with
  | zero => exact .pure rfl
  | succ n ih =>
      refine .skip (.gets _) fun block => .ite ?_ (ih (i + 1))
      exact .skip (flatfsFree_balanced block) fun _ => ih (i + 1)

theorem flatfsRemoveIndir_balanced (todbl : Option Nat) :
    Balanced Volume.lock (flatfsRemoveIndir todbl) := by
  refine .skip (.assert _ _) fun _ => .skip (.gets _) fun ind => ?_
  refine .branch (readBlock_balanced ind _) ?_ (.pure rfl)
  exact .skip (freeNamed_balanced _ _ _) fun _ => .pure rfl

/-- The single-indirect block, read in if it has to be. -/
theorem loadIndir_balanced (ind : Word) (indirbuf k : Nat) :
    Balanced Volume.lock (do
      let loaded ← if indirbuf = 0 then readBlock ind FlatBuffer.si else pure true
      if loaded then Prog.gets fun s => s.buffer .si k
      else pure (BitVec.ofInt 32 VFS_ERROR)) :=
  .ite (.branch (readBlock_balanced ind _) (.gets _) (.pure rfl))
    (.branch (.pure rfl) (.gets _) (.pure rfl))

theorem flatfsGetblock_balanced (block indirbuf : Nat) :
    Balanced Volume.lock (flatfsGetblock block indirbuf) := by
  refine .ite (.gets _) (.ite ?_ ?_)
  · exact .skip (.gets _) fun ind => loadIndir_balanced ind indirbuf _
  · refine .skip (.assert _ _) fun _ => .skip (.gets _) fun ind => ?_
    exact loadIndir_balanced ind indirbuf _

theorem loadDouble_balanced : Balanced Volume.lock loadDouble :=
  .skip (.gets _) fun dbl => .ite (readBlock_balanced dbl _) (.pure rfl)

theorem removeDouble_balanced (rounds i tmpblocks : Nat) :
    Balanced Volume.lock (removeDouble rounds i tmpblocks) := by
  induction rounds generalizing i tmpblocks with
  | zero => exact .ite (.stop _) (.pure rfl)
  | succ rounds ih =>
      refine .ite ?_ (.pure rfl)
      exact .branch (flatfsRemoveIndir_balanced _) (ih _ _) (.pure rfl)

/-! ## FlatFS operations -/

theorem flatfsOpen_balanced (filename : Name) : Balanced Volume.lock (flatfsOpen filename) := by
  refine locked (.branch (readBlock_balanced _ _) ?_ (unlock_adds _))
  apply Adds.skip (.gets _)
  intro md
  cases findEntry md filename with
  | none => exact unlock_adds _
  | some j => exact unlock_adds _

theorem createStore_adds (index : Nat) : Adds Volume.lock (createStore index) fun _ => 1 := by
  refine .branch (writeBuffer_balanced _ _) ?_ (unlock_adds _)
  refine .skip (.gets _) fun inode => ?_
  exact .branch (writeBuffer_balanced inode _) (unlock_adds _) (unlock_adds _)

theorem createAlloc_adds (index numblocks size : Nat) :
    Adds Volume.lock (createAlloc index numblocks size) fun _ => 1 := by
  refine .branch (flatfsBmAlloc_balanced _ _) ?_ (unlock_adds _)
  refine .skip (setWord_balanced _ _ _) fun _ => .skip (setWord_balanced _ _ _) fun _ => ?_
  refine .skip (setWord_balanced _ _ _) fun _ => ?_
  have allocated := Adds.branch (flatfsAllocBlocks_balanced numblocks 0) (createStore_adds index)
    (unlock_adds VFS_ERROR)
  refine .ite (.branch (allocZeroed_balanced _ _ _) allocated (unlock_adds _)) ?_
  exact .branch (.pure rfl) allocated (unlock_adds _)

theorem flatfsCreate_balanced (filename : Name) (size : CInt) :
    Balanced Volume.lock (flatfsCreate filename size) := by
  refine locked (.ite (unlock_adds _) ?_)
  refine .branch (readBlock_balanced _ _) ?_ (unlock_adds _)
  apply Adds.skip (.gets _)
  intro md
  cases findEntry md filename with
  | some j => exact unlock_adds _
  | none =>
      cases findSlot md with
      | none => exact unlock_adds _
      | some index =>
          refine .skip (setBuffer_balanced _ _) fun _ => ?_
          exact .branch (readBlock_balanced _ _) (createAlloc_adds _ _ _) (unlock_adds _)

theorem removeStore_adds (index : Nat) : Adds Volume.lock (removeStore index) fun _ => 1 := by
  refine .skip (.gets _) fun inode => .skip (flatfsFree_balanced inode) fun _ => ?_
  refine .skip (freeNamed_balanced _ _ _) fun _ => ?_
  refine .skip (setWord_balanced _ _ _) fun _ => .skip (setBuffer_balanced _ _) fun _ => ?_
  refine .branch storeBat_balanced ?_ (unlock_adds _)
  exact .branch (writeBuffer_balanced _ _) (unlock_adds _) (unlock_adds _)

theorem removeBlocks_adds (index : Nat) : Adds Volume.lock (removeBlocks index) fun _ => 1 := by
  refine .skip (.gets _) fun numblocks => .skip (.gets _) fun dbl => ?_
  -- the single-indirect block comes after the double-indirect one, if there is one
  have rest : Adds Volume.lock (do
      let indir ← Prog.gets fun s : Flat => s.buffer .inode indirWord
      let cleared ← if 0 < indir.toNat then flatfsRemoveIndir none else pure true
      if cleared then removeStore index else unlock VFS_ERROR) fun _ => 1 := by
    refine .skip (.gets _) fun indir => ?_
    refine .ite (.branch (flatfsRemoveIndir_balanced _) (removeStore_adds _) (unlock_adds _)) ?_
    exact .branch (.pure rfl) (removeStore_adds _) (unlock_adds _)
  refine .ite ?_ (.branch (.pure rfl) rest (unlock_adds _))
  apply Adds.skip (readBlock_balanced dbl _)
  intro loaded
  refine .ite ?_ ?_
  · apply Adds.branch (removeDouble_balanced _ _ _) rest
    exact unlock_adds _
  · exact .branch (.pure rfl) rest (unlock_adds _)

theorem flatfsRemove_balanced (filename : Name) :
    Balanced Volume.lock (flatfsRemove filename) := by
  refine locked (.branch (readBlock_balanced _ _) ?_ (unlock_adds _))
  apply Adds.skip (.gets _)
  intro md
  cases findEntry md filename with
  | none => exact unlock_adds _
  | some index =>
      refine .branch (readBlock_balanced _ _) ?_ (unlock_adds _)
      exact .branch (readBlock_balanced _ _) (removeBlocks_adds _) (unlock_adds _)

theorem readLoop_balanced (b1 : Nat) (b2 bufsize offset : Int) (n b : Nat) (read : Int)
    (out : List Byte) : Balanced Volume.lock (readLoop b1 b2 bufsize offset n b read out) := by
  induction n generalizing b read out with
  | zero => exact .pure rfl
  | succ n ih =>
      refine .skip (flatfsGetblock_balanced _ _) fun block => ?_
      refine .branch (readBlock_balanced block _) ?_ (.pure rfl)
      exact .skip (.gets _) fun bat => .ite (ih _ _ _) (.ite (ih _ _ _) (ih _ _ _))

theorem readBlocks_adds (bufsize offset : Int) :
    Adds Volume.lock (readBlocks bufsize offset) fun _ => 1 := by
  refine .branch loadDouble_balanced ?_ (unlock_adds _)
  refine .skip (flatfsGetblock_balanced _ _) fun _ => ?_
  refine .skip (readLoop_balanced _ _ _ _ _ _ _ _) fun result => ?_
  cases result with
  | none => exact unlock_adds _
  | some r => exact unlock_adds _

theorem flatfsRead_balanced (fileid bufsize offset : CInt) :
    Balanced Volume.lock (flatfsRead fileid bufsize offset) := by
  refine locked (.skip (.gets _) fun totalblocks => .ite (unlock_adds _) ?_)
  refine .branch (readBlock_balanced _ _) ?_ (unlock_adds _)
  refine .skip (.gets _) fun filesize => .ite (unlock_adds _) ?_
  exact .ite (unlock_adds _) (readBlocks_adds _ _)

theorem writeLoop_balanced (b1 b2 : Nat) (buffer : Nat → Byte) (datasize offset : Int) (n b : Nat)
    (written : Int) :
    Balanced Volume.lock (writeLoop b1 b2 buffer datasize offset n b written) := by
  induction n generalizing b written with
  | zero => exact .pure rfl
  | succ n ih =>
      refine .skip (flatfsGetblock_balanced _ _) fun block => ?_
      have stored : ∀ written, Balanced Volume.lock (do
          let stored ← writeBuffer block FlatBuffer.bat
          if stored then writeLoop b1 b2 buffer datasize offset n (b + 1) written
          else pure none) :=
        fun written => .branch (writeBuffer_balanced block _) (ih _ _) (.pure rfl)
      refine .ite ?_ (.ite ?_ ?_)
      · refine .branch (readBlock_balanced block _) ?_ (.pure rfl)
        exact .skip (setBuffer_balanced _ _) fun _ => stored _
      · refine .branch (readBlock_balanced block _) ?_ (.pure rfl)
        exact .skip (setBuffer_balanced _ _) fun _ => stored _
      · exact .skip (setBuffer_balanced _ _) fun _ => stored _

theorem writeGrow_balanced (b2 : Nat) : Balanced Volume.lock (writeGrow b2) := by
  refine .skip (.gets _) fun filesize => .ite ?_ (.pure rfl)
  refine .branch (readBlock_balanced _ _) ?_ (.pure rfl)
  have grown : Balanced Volume.lock (
      if lastBlock filesize < b2 then do
        let _ ← flatfsAllocBlocks (b2 - lastBlock filesize) (lastBlock filesize + 1)
        pure true
      else storeBat) :=
    .ite (.skip (flatfsAllocBlocks_balanced _ _) fun _ => .pure rfl) storeBat_balanced
  have ready : Balanced Volume.lock (do
      let ready ←
        if FLATFS_BLOCKS_DIRECT + FLATFS_BLOCKS_SINDIR ≤ b2 ∧
            lastBlock filesize < FLATFS_BLOCKS_DIRECT + FLATFS_BLOCKS_SINDIR then
          allocZeroed .inode dblIndirWord 1
        else pure true
      if ready then
        if lastBlock filesize < b2 then do
          let _ ← flatfsAllocBlocks (b2 - lastBlock filesize) (lastBlock filesize + 1)
          pure true
        else storeBat
      else pure false) := by
    refine .ite (.branch (allocZeroed_balanced _ _ _) grown (.pure rfl)) ?_
    exact .branch (.pure rfl) grown (.pure rfl)
  refine .ite (.branch (allocZeroed_balanced _ _ _) ready (.pure rfl)) ?_
  exact .branch (.pure rfl) ready (.pure rfl)

theorem writeSize_adds (fileid : Word) (filesize : Nat) (written : Int) :
    Adds Volume.lock (writeSize fileid filesize written) fun _ => 1 := by
  refine .skip (.gets _) fun old => .ite ?_ (unlock_adds _)
  refine .skip (setWord_balanced _ _ _) fun _ => ?_
  exact .branch (writeBuffer_balanced _ _) (unlock_adds _) (unlock_adds _)

theorem writeBlocks_adds (fileid : Word) (buffer : Nat → Byte) (datasize offset : Int) :
    Adds Volume.lock (writeBlocks fileid buffer datasize offset) fun _ => 1 := by
  refine .branch loadDouble_balanced ?_ (unlock_adds _)
  refine .branch (writeGrow_balanced _) ?_ (unlock_adds _)
  refine .skip (flatfsGetblock_balanced _ _) fun _ => ?_
  refine .skip (writeLoop_balanced _ _ _ _ _ _ _ _) fun result => ?_
  cases result with
  | none => exact unlock_adds _
  | some written => exact writeSize_adds _ _ _

theorem flatfsWrite_balanced (fileid : CInt) (buffer : Nat → Byte) (datasize offset : CInt) :
    Balanced Volume.lock (flatfsWrite fileid buffer datasize offset) := by
  refine locked (.skip (.gets _) fun totalblocks => .ite (unlock_adds _) ?_)
  refine .ite (unlock_adds _) (.branch (readBlock_balanced _ _) ?_ (unlock_adds _))
  exact .skip (.gets _) fun filesize => .ite (unlock_adds _) (writeBlocks_adds _ _ _ _)

theorem flatfsGetfree_balanced : Balanced Volume.lock flatfsGetfree := by
  refine locked (.branch (readBlock_balanced _ _) ?_ (unlock_adds _))
  exact .skip (.gets _) fun free => unlock_adds free

theorem flatfsFilecount_balanced (dirname : Name) :
    Balanced Volume.lock (flatfsFilecount dirname) := by
  refine .ite (.pure rfl) (locked (.branch (readBlock_balanced _ _) ?_ (unlock_adds _)))
  exact .skip (.gets _) fun count => unlock_adds count

theorem flatfsFile_balanced (dirname : Name) (idx : CInt) :
    Balanced Volume.lock (flatfsFile dirname idx) := by
  refine .ite (.pure rfl) (locked (.branch (readBlock_balanced _ _) ?_ (unlock_adds _)))
  apply Adds.skip (.gets _)
  intro md
  cases (usedEntries md)[idx.val.toNat]? with
  | none => exact unlock_adds _
  | some j => exact unlock_adds _

/-! ## TFS helpers -/

theorem tfsFindnset_balanced (b : TfsBuffer) (i : Nat) :
    Balanced Volume.lock (tfsFindnset b i) := by
  apply balanced_of_same
  intro s a t ran
  unfold tfsFindnset at ran
  split at ran <;>
  · cases ran
    rfl

theorem tfsClear_balanced (b : TfsBuffer) (lo hi : Nat) :
    Balanced Volume.lock (tfsClear b lo hi) := setBuffer_balanced _ _

theorem tfsFree_balanced (block : Word) : Balanced Volume.lock (tfsFree block) := by
  refine .skip (.assert _ _) fun _ => .skip (.assert _ _) fun _ => ?_
  exact setBuffer_balanced _ _

theorem tfsLoad_balanced (b : Nat) : Balanced Volume.lock (tfsLoad b) :=
  .skip (.gets _) fun block => readBlock_balanced block _

theorem tfsSave_balanced (b : Nat) : Balanced Volume.lock (tfsSave b) :=
  .skip (.gets _) fun block => writeBuffer_balanced block _

theorem tfsTakeBlocks_balanced (i n : Nat) : Balanced Volume.lock (tfsTakeBlocks i n) := by
  induction n generalizing i with
  | zero => exact .pure rfl
  | succ n ih => exact .branch (tfsFindnset_balanced _ _) (ih (i + 1)) (.pure rfl)

theorem tfsZeroBlocks_balanced (i n : Nat) : Balanced Volume.lock (tfsZeroBlocks i n) := by
  induction n generalizing i with
  | zero => exact .pure rfl
  | succ n ih => exact .branch (tfsSave_balanced i) (ih (i + 1)) (.pure rfl)

theorem tfsFreeBlocks_balanced (i n : Nat) : Balanced Volume.lock (tfsFreeBlocks i n) := by
  induction n generalizing i with
  | zero => exact .pure rfl
  | succ n ih =>
      refine .skip (.gets _) fun block => .ite ?_ (.pure rfl)
      exact .skip (tfsFree_balanced block) fun _ => ih (i + 1)

/-! ## TFS operations -/

theorem tfsOpen_balanced (filename : Name) : Balanced Volume.lock (tfsOpen filename) := by
  refine locked (.branch (readBlock_balanced _ _) ?_ (unlock_adds _))
  apply Adds.skip (.gets _)
  intro md
  cases findEntry md filename with
  | none => exact unlock_adds _
  | some j => exact unlock_adds _

theorem tfsCreateStore_adds (index numblocks : Nat) :
    Adds Volume.lock (tfsCreateStore index numblocks) fun _ => 1 := by
  refine .branch (writeBuffer_balanced _ _) ?_ (unlock_adds _)
  refine .branch (writeBuffer_balanced _ _) ?_ (unlock_adds _)
  refine .skip (.gets _) fun inode => ?_
  refine .branch (writeBuffer_balanced inode _) ?_ (unlock_adds _)
  refine .skip (tfsClear_balanced _ _ _) fun _ => ?_
  exact .branch (tfsZeroBlocks_balanced _ _) (unlock_adds _) (unlock_adds _)

theorem tfsCreateAlloc_adds (index numblocks size : Nat) :
    Adds Volume.lock (tfsCreateAlloc index numblocks size) fun _ => 1 := by
  refine .branch (tfsFindnset_balanced _ _) ?_ (unlock_adds _)
  refine .skip (setWord_balanced _ _ _) fun _ => ?_
  refine .branch (tfsTakeBlocks_balanced _ _) ?_ (unlock_adds _)
  exact .skip (tfsClear_balanced _ _ _) fun _ => tfsCreateStore_adds _ _

theorem tfsCreate_balanced (filename : Name) (size : CInt) :
    Balanced Volume.lock (tfsCreate filename size) := by
  refine locked (.ite (unlock_adds _) ?_)
  refine .branch (readBlock_balanced _ _) ?_ (unlock_adds _)
  apply Adds.skip (.gets _)
  intro md
  cases findEntry md filename with
  | some j => exact unlock_adds _
  | none =>
      cases findSlot md with
      | none => exact unlock_adds _
      | some index =>
          refine .skip (setBuffer_balanced _ _) fun _ => ?_
          exact .branch (readBlock_balanced _ _) (tfsCreateAlloc_adds _ _ _) (unlock_adds _)

theorem tfsRemoveBlocks_adds (index : Nat) :
    Adds Volume.lock (tfsRemoveBlocks index) fun _ => 1 := by
  refine .skip (.gets _) fun inode => .skip (tfsFree_balanced inode) fun _ => ?_
  refine .skip (tfsFreeBlocks_balanced _ _) fun _ => ?_
  refine .skip (setWord_balanced _ _ _) fun _ => .skip (setBuffer_balanced _ _) fun _ => ?_
  refine .branch (writeBuffer_balanced _ _) ?_ (unlock_adds _)
  exact .branch (writeBuffer_balanced _ _) (unlock_adds _) (unlock_adds _)

theorem tfsRemove_balanced (filename : Name) : Balanced Volume.lock (tfsRemove filename) := by
  refine locked (.branch (readBlock_balanced _ _) ?_ (unlock_adds _))
  apply Adds.skip (.gets _)
  intro md
  cases findEntry md filename with
  | none => exact unlock_adds _
  | some index =>
      refine .branch (readBlock_balanced _ _) ?_ (unlock_adds _)
      exact .branch (readBlock_balanced _ _) (tfsRemoveBlocks_adds _) (unlock_adds _)

theorem tfsReadLoop_balanced (b2 bufsize : Int) (n b1 : Nat) (read : Int) (out : List Byte) :
    Balanced Volume.lock (tfsReadLoop b2 bufsize n b1 read out) := by
  induction n generalizing b1 read out with
  | zero => exact .pure rfl
  | succ n ih =>
      refine .branch (tfsLoad_balanced b1) ?_ (.pure rfl)
      exact .skip (.gets _) fun bat => .ite (ih _ _ _) (ih _ _ _)

theorem tfsReadBlocks_adds (bufsize offset : Int) :
    Adds Volume.lock (tfsReadBlocks bufsize offset) fun _ => 1 := by
  refine .branch (tfsLoad_balanced _) ?_ (unlock_adds _)
  refine .skip (.gets _) fun bat => .skip (tfsReadLoop_balanced _ _ _ _ _ _) fun result => ?_
  cases result with
  | none => exact unlock_adds _
  | some r => exact unlock_adds _

theorem tfsRead_balanced (fileid bufsize offset : CInt) :
    Balanced Volume.lock (tfsRead fileid bufsize offset) := by
  refine locked (.skip (.gets _) fun totalblocks => .ite (unlock_adds _) ?_)
  refine .branch (readBlock_balanced _ _) ?_ (unlock_adds _)
  refine .skip (.gets _) fun filesize => .ite (unlock_adds _) ?_
  exact .ite (unlock_adds _) (tfsReadBlocks_adds _ _)

theorem tfsWriteLoop_balanced (b2 : Int) (buffer : Nat → Byte) (datasize : Int) (n b1 : Nat)
    (written : Int) : Balanced Volume.lock (tfsWriteLoop b2 buffer datasize n b1 written) := by
  induction n generalizing b1 written with
  | zero => exact .pure rfl
  | succ n ih =>
      have saved : ∀ written, Balanced Volume.lock (do
          let stored ← tfsSave b1
          if stored then tfsWriteLoop b2 buffer datasize n (b1 + 1) written else pure none) :=
        fun written => .branch (tfsSave_balanced b1) (ih _ _) (.pure rfl)
      refine .ite (.ite ?_ ?_) ?_
      · refine .branch (tfsLoad_balanced b1) ?_ (.pure rfl)
        exact .skip (setBuffer_balanced _ _) fun _ => saved _
      · refine .branch (.pure rfl) ?_ (.pure rfl)
        exact .skip (setBuffer_balanced _ _) fun _ => saved _
      · exact .skip (setBuffer_balanced _ _) fun _ => saved _

/-- The write of the first block, the loop over the others, and the return. -/
theorem firstSaved_adds (b1 : Nat) (b2 datasize written : Int) (buffer : Nat → Byte)
    (content : Tfs → Block) {k : Option Int → Prog Tfs Int}
    (gives : ∀ result, Adds Volume.lock (k result) fun _ => 1) :
    Adds Volume.lock (do
      Prog.modify fun s : Tfs => s.setBuffer .bat (content s)
      let stored ← tfsSave b1
      if stored then do
        let result ← tfsWriteLoop b2 buffer datasize (b2 - b1).toNat (b1 + 1) written
        k result
      else unlock VFS_ERROR) fun _ => 1 := by
  refine .skip (setBuffer_balanced _ _) fun _ => ?_
  refine .branch (tfsSave_balanced b1) ?_ (unlock_adds _)
  exact .skip (tfsWriteLoop_balanced _ _ _ _ _ _) gives

theorem tfsWriteBlocks_adds (buffer : Nat → Byte) (datasize offset : Int) :
    Adds Volume.lock (tfsWriteBlocks buffer datasize offset) fun _ => 1 := by
  refine .ite ?_ ?_
  · refine .branch (tfsLoad_balanced _) ?_ (unlock_adds _)
    apply firstSaved_adds
    rintro (_ | written)
    · exact unlock_adds _
    · exact unlock_adds _
  · refine .branch (.pure rfl) ?_ (unlock_adds _)
    apply firstSaved_adds
    rintro (_ | written)
    · exact unlock_adds _
    · exact unlock_adds _

theorem tfsWrite_balanced (fileid : CInt) (buffer : Nat → Byte) (datasize offset : CInt) :
    Balanced Volume.lock (tfsWrite fileid buffer datasize offset) := by
  refine locked (.skip (.gets _) fun totalblocks => .ite (unlock_adds _) ?_)
  refine .branch (readBlock_balanced _ _) ?_ (unlock_adds _)
  refine .skip (.gets _) fun filesize => .ite (unlock_adds _) ?_
  exact .ite (unlock_adds _) (tfsWriteBlocks_adds _ _ _)

theorem tfsGetfree_balanced : Balanced Volume.lock tfsGetfree := by
  refine locked (.branch (readBlock_balanced _ _) ?_ (unlock_adds _))
  exact .skip (.gets _) fun free => unlock_adds free

theorem tfsFilecount_balanced (dirname : Name) :
    Balanced Volume.lock (tfsFilecount dirname) := by
  refine .ite (.pure rfl) (locked (.branch (readBlock_balanced _ _) ?_ (unlock_adds _)))
  exact .skip (.gets _) fun count => unlock_adds count

theorem tfsFile_balanced (dirname : Name) (idx : CInt) :
    Balanced Volume.lock (tfsFile dirname idx) := by
  refine .ite (.pure rfl) (locked (.branch (readBlock_balanced _ _) ?_ (unlock_adds _)))
  refine .skip (.gets _) fun md => ?_
  cases (usedEntries md)[idx.val.toNat]? with
  | none => exact unlock_adds _
  | some j => exact unlock_adds _

end Buenos.Fs
