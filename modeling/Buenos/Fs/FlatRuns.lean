/-
# Fs.FlatRuns -- runs of a FlatFS volume

The calls are those of TFS, made to the FlatFS driver.  `FlatChange` says what one of them
does to the image: nothing in use changes, or one file is made, removed or written.  Each
of these keeps the image consistent, so a run keeps it (`flat_runs`).

Left out are the calls that go wrong for reasons of their own: a write whose fileid is not
that of a file, or that finds room for some of its blocks only, and the removal of the empty
name while an entry is unused.
-/
import Buenos.Fs.DriverLocks
import Buenos.Fs.FlatData
import Buenos.Fs.FlatRemove
import Buenos.Fs.FlatWritten
import Buenos.Fs.TfsRuns

namespace Buenos.Fs

open Buenos.Lib Buenos.Theory

set_option autoImplicit false

/-! ## The calls -/

def TfsOp.flatRun : TfsOp → Prog Flat TfsReply
  | .create filename size => do
      let result ← flatfsCreate filename size
      pure (result, [])
  | .openFile filename => do
      let result ← flatfsOpen filename
      pure (result, [])
  | .remove filename => do
      let result ← flatfsRemove filename
      pure (result, [])
  | .read fileid n off => flatfsRead fileid n off
  | .write fileid buffer n off => do
      let result ← flatfsWrite fileid buffer n off
      pure (result, [])

theorem flatRun_int {m : Prog Flat Int} {s t : Flat} {reply : TfsReply}
    (ran : (do
      let result ← m
      pure (result, []) : Prog Flat TfsReply) s = .returned (reply, t)) :
    ∃ result, m s = .returned (result, t) ∧ reply = (result, []) := by
  obtain ⟨result, u, first, last⟩ := Prog.bind_returned.1 ran
  cases last
  exact ⟨result, first, rfl⟩

/-- The calls of a FlatFS volume, each taken when it returns. -/
def flatSystem (initial : Flat → Prop) : System Flat TfsOp where
  initial := initial
  step s op := match op.flatRun s with
    | .returned (_, t) => some t
    | .stopped _ => none

theorem flatSystem_step {initial : Flat → Prop} {s t : Flat} {op : TfsOp} :
    (flatSystem initial).step s op = some t ↔ ∃ reply, op.flatRun s = .returned (reply, t) := by
  unfold flatSystem
  dsimp only
  split
  · rename_i reply u ran
    simp [ran]
  · rename_i ran
    simp [ran]

/-- No entry of the directory is unused. -/
def Full (md : Block) : Prop := ∀ j < 25, Used md j

instance (md : Block) : Decidable (Full md) :=
  inferInstanceAs (Decidable (∀ j < 25, Used md j))

/-- A name that no unused entry has. -/
def Sought (md : Block) (filename : Name) : Prop := filename ≠ [] ∨ Full md

instance (md : Block) (filename : Name) : Decidable (Sought md filename) :=
  inferInstanceAs (Decidable (_ ∨ _))

/-- The empty name is not removed while an entry is unused. -/
def TfsOp.Removable (md : Block) : TfsOp → Prop
  | .remove filename => Sought md filename
  | _ => True

/-- A write that is refused before its inode is read, or that has no bytes. -/
def FlatRefused (s : Flat) (fileid n off : CInt) : Prop :=
  fileid.val < 2 ∨ (s.totalblocks : Int) < fileid.val ∨ off.val < 0 ∨ n.val = 0

/-- A write is refused, or it is given a file, and it starts past its end, finds no room for
its first block, or finds room for all that it needs. -/
def TfsOp.FlatPermitted (s : Flat) : TfsOp → Prop
  | .write fileid _ n off => FlatRefused s fileid n off ∨ 0 < n.val ∧
      ∃ j, Used (s.blocks 2) j ∧ fileid.val = inodeOf s.blocks j ∧
        (fileSize (s.blocks (inodeOf s.blocks j)) < off.val ∨
          Lib.free (s.blocks 1) s.totalblocks <
            writeFirst (s.blocks (inodeOf s.blocks j)) n off ∨
          writeNeed (s.blocks (inodeOf s.blocks j)) n off ≤
            Lib.free (s.blocks 1) s.totalblocks)
  | _ => True

theorem findEntry_sought {md : Block} {filename : Name} {j : Nat} (blanked : Blanked md)
    (sought : Sought md filename) (found : findEntry md filename = some j) : Used md j := by
  have inside := (findEntry_some found).1
  rcases sought with named | full
  · exact ⟨inside, findEntry_used blanked named found⟩
  · exact full j inside

/-! ## Calls that change nothing -/

namespace Volume

variable {s t : Flat}

/-- All of a FlatFS volume but its lock and its buffers. -/
def flatStill (s : Flat) : (Nat → Block) × Nat × Nat × (Nat → Bool) :=
  (s.blocks, s.totalblocks, s.disk.totalBlocks, s.disk.answers)

theorem flatReadBlock_fixes (block : Word) (b : FlatBuffer) :
    Prog.Fixes flatStill (readBlock block b) := by
  intro s a t ran
  simp only [readBlock, diskSubmitRequest] at ran
  by_cases answered : s.disk.answers s.disk.asked = true
  · by_cases inside : block.toNat < s.disk.totalBlocks
    · simp only [answered, inside, if_true] at ran
      cases ran
      rfl
    · simp [answered, inside] at ran
  · simp only [answered] at ran
    cases ran
    rfl

theorem flatLockP_fixes : Prog.Fixes flatStill (lockP : Prog Flat Unit) := by
  intro s a t ran
  simp only [lockP] at ran
  split at ran
  · cases ran
    rfl
  · cases ran

theorem flatUnlock_fixes {α : Type} (result : α) :
    Prog.Fixes flatStill (unlock result : Prog Flat α) :=
  .bind (.modify fun _ => rfl) fun _ => .pure _

section Reads

variable {γ : Type} {f : Flat → γ} (reads : ∀ block b, Prog.Fixes f (readBlock block b))
  (locks : Prog.Fixes f lockP) (unlocks : ∀ result : Int × List Byte, Prog.Fixes f (unlock result))

include reads unlocks

theorem readBlocks_fixes (bufsize offset : Int) : Prog.Fixes f (readBlocks bufsize offset) := by
  have double : Prog.Fixes f loadDouble :=
    .bind (.gets _) fun dbl => .ite (reads _ _) (.pure _)
  refine .bind double fun loaded => .ite ?_ (unlocks _)
  refine .bind (flatfsGetblock_fixes reads _ _) fun _ =>
    .bind (readLoop_fixes reads _ _ _ _ _ _ _ _) ?_
  intro result
  cases result with
  | none => exact unlocks _
  | some r => exact unlocks _

include locks

theorem flatfsRead_fixes (fileid n off : CInt) : Prog.Fixes f (flatfsRead fileid n off) := by
  refine .bind locks fun _ => .bind (.gets _) fun total => .ite (unlocks _) ?_
  refine .bind (reads _ _) fun loaded => .ite ?_ (unlocks _)
  refine .bind (.gets _) fun filesize => .ite (unlocks _) ?_
  exact .ite (unlocks _) (readBlocks_fixes reads unlocks _ _)

end Reads

/-- **A read changes nothing**, whatever it is given. -/
theorem flatfsRead_unchanged {fileid n off : CInt} {result : Int × List Byte}
    (ran : flatfsRead fileid n off s = .returned (result, t)) : Unchanged s t := by
  have same := flatfsRead_fixes flatReadBlock_fixes flatLockP_fixes flatUnlock_fixes fileid n off s
    result t ran
  simp only [flatStill, Prod.mk.injEq] at same
  obtain ⟨disk, totalblocks, totalBlocks, answers⟩ := same
  have lock := (flatfsRead_balanced fileid n off).same s result t ran
  exact ⟨⟨totalblocks, totalBlocks, answers, lock⟩, disk⟩

/-- A write that is refused at once. -/
theorem flatfsWrite_none (free : 0 < s.lock) {fileid : CInt} (buffer : Nat → Byte)
    {n off : CInt} (refused : FlatRefused s fileid n off) :
    ∃ t, flatfsWrite fileid buffer n off s = .returned
        (if fileid.val < 2 ∨ (s.totalblocks : Int) < fileid.val ∨ off.val < 0 then
          VFS_INVALID_PARAMS else 0, t) ∧ Unchanged s t ∧ t.refused = s.refused := by
  refine ⟨_, ?_, Unchanged.unlock ⟨.refl _, rfl⟩, rfl⟩
  rw [flatfsWrite, Prog.bind_of_returned (lockP_free free), Prog.bind_gets_apply,
    locked_totalblocks]
  by_cases outside : fileid.val < 2 ∨ (s.totalblocks : Int) < fileid.val ∨ off.val < 0
  · rw [if_pos outside, if_pos outside]
    rfl
  · rw [if_neg outside, if_neg outside,
      if_pos (show n.val = 0 by unfold FlatRefused at refused; tauto)]
    rfl

end Volume

/-- A write that starts past the end of its file. -/
theorem flatfsWrite_past {s : Flat} (mounted : FlatMounted s) {j : Nat}
    (used : Used (s.blocks 2) j) {fileid : CInt} (isFile : fileid.val = inodeOf s.blocks j)
    {n off : CInt} (buffer : Nat → Byte) (some : 0 < n.val) (low : 0 ≤ off.val)
    (past : fileSize (s.blocks (inodeOf s.blocks j)) < off.val) :
    ∃ t, flatfsWrite fileid buffer n off s = .returned (VFS_ERROR, t) ∧
      Volume.Unchanged s t ∧ t.refused = s.refused := by
  refine ⟨_, ?_, Volume.Unchanged.unlock ⟨.didRead (inodeOf s.blocks j) .inode, rfl⟩, rfl⟩
  rw [flatfsWrite_inode mounted used isFile buffer some low, if_pos past]
  rfl

/-- A write that finds no room for its first block. -/
theorem flatfsWrite_unstarted {s : Flat} (mounted : FlatMounted s) {j : Nat}
    (used : Used (s.blocks 2) j) {fileid : CInt} (isFile : fileid.val = inodeOf s.blocks j)
    {n off : CInt} (buffer : Nat → Byte)
    (inside : WriteInside (s.blocks (inodeOf s.blocks j)) n off)
    (full : Lib.free (s.blocks 1) s.totalblocks <
      writeFirst (s.blocks (inodeOf s.blocks j)) n off) :
    ∃ t, flatfsWrite fileid buffer n off s = .returned (VFS_ERROR, t) ∧ Volume.Same s t ∧
      ∀ b, Marked s.blocks b → t.blocks b = s.blocks b := by
  obtain ⟨v, step, same, disk, -, fetched⟩ := flatfsWrite_start mounted used isFile buffer inside
  have inode := fetched.inode
  have ready := mounted.ready.locked.same same
  have total : v.totalblocks = s.totalblocks := same.totalblocks
  have room : 3 ≤ v.totalblocks := by
    rw [total]
    exact mounted.room
  rw [disk] at inode
  rw [← inode] at inside full
  have more : flatCount (v.buffer .inode) < writeEnd n off := by
    by_contra fits
    have old : ¬ NewDouble (v.buffer .inode) n off := fun new => fits (by
      unfold NewDouble at new
      omega)
    have nonempty : flatCount (v.buffer .inode) ≠ 0 := by
      have positive := inside.positive
      omega
    rw [writeFirst, if_neg nonempty, if_neg old] at full
    exact absurd full (Nat.not_lt_zero _)
  rcases Volume.writeGrow_cases ready room inside more with
    ⟨t, ran, -, refused⟩ | ⟨t, u, first, dbl, -, enough, -⟩
  · refine ⟨{ t with lock := t.lock + 1 }, ?_,
      (same.trans ((Volume.Same.didRead 1 FlatBuffer.bat).trans refused.same)).unlock, ?_⟩
    · rw [step, Prog.bind_of_returned ran]
      rfl
    · intro b marked
      rw [← disk]
      refine refused.kept b ?_ List.not_mem_nil
      simp only [Volume.marked, Volume.didRead_buffer, Function.update_self]
      rw [disk]
      exact marked.2
  · rw [disk, total] at enough
    exact absurd full (Nat.not_lt.2 enough)

/-! ## What a call does to the image -/

/-- Nothing in use changes, or one file is made, removed or written. -/
inductive FlatChange (n : Nat) (blocks blocks' : Nat → Block) : TfsOp → Prop
  | kept {op : TfsOp} : (∀ b, Marked blocks b → blocks' b = blocks b) →
      FlatChange n blocks blocks' op
  | created {filename : Name} {size : CInt} {j p : Nat} :
      FlatCreated n blocks blocks' filename size j p →
      FlatChange n blocks blocks' (.create filename size)
  | removed {filename : Name} {j : Nat} : findEntry (blocks 2) filename = some j →
      FlatCleared blocks blocks' j → FlatChange n blocks blocks' (.remove filename)
  | written {fileid m off : CInt} {buffer : Nat → Byte} {j : Nat} :
      FlatWritten n blocks blocks' j → (blocks' (inodeOf blocks j) 0).toNat < 0x80000000 →
      FlatChange n blocks blocks' (.write fileid buffer m off)

theorem FlatChange.image' {n : Nat} {blocks blocks' : Nat → Block} {op : TfsOp}
    (small : n ≤ 4096) (image : FlatImage n blocks) (change : FlatChange n blocks blocks' op) :
    FlatImage n blocks' := by
  cases change with
  | kept same =>
      refine image.frame (same 1 (image.held.reserved 1 (by decide)))
        (same 2 (image.held.reserved 2 (by decide))) fun j used => ⟨?_, fun b mem => ?_⟩
      · exact same _ (image.held.owned j _ (FlatImage.inode_mem used))
      · have part : b ∈ flatParts blocks (blocks (inodeOf blocks j)) :=
          List.mem_append_right _ mem
        exact same b (image.held.owned j b (FlatImage.part_mem used part))
  | created created => exact created.image' small image
  | removed _ cleared => exact cleared.image' image
  | written written _ => exact written.image' image

theorem Volume.Unchanged.flatChange {s t : Flat} {op : TfsOp} (unchanged : Volume.Unchanged s t) :
    Volume.Same s t ∧ FlatChange s.totalblocks s.blocks t.blocks op :=
  ⟨unchanged.same, .kept fun b _ => by rw [unchanged.disk]⟩

/-- `flatfs_open`, which changes nothing. -/
theorem flatfsOpen_ran {s : Flat} (ready : s.Ready) (free : 0 < s.lock)
    (room : 3 ≤ s.totalblocks) (filename : Name) :
    ∃ t, Volume.Unchanged s t ∧
      ((findEntry (s.blocks 2) filename = none ∧
        flatfsOpen filename s = .returned (VFS_NOT_FOUND, t)) ∨
      ∃ j, findEntry (s.blocks 2) filename = some j ∧
        flatfsOpen filename s = .returned (toInt32 (entryInode (s.blocks 2) j).toNat, t)) := by
  refine ⟨_, Volume.Unchanged.unlock ⟨.didRead 2 .md, rfl⟩, ?_⟩
  rw [flatfsOpen, Prog.bind_of_returned (Volume.lockP_free free),
    Prog.bind_of_returned (Volume.readMd ready.locked room)]
  simp only [if_true, Prog.bind_gets_apply, Volume.didRead_buffer, Function.update_self,
    Volume.locked_blocks]
  cases findEntry (s.blocks 2) filename with
  | none => exact .inl ⟨rfl, rfl⟩
  | some j =>
      refine .inr ⟨j, rfl, ?_⟩
      dsimp only
      generalize toInt32 (entryInode (s.blocks 2) j).toNat = inode
      rfl

/-- `flatfs_remove` of a name that no entry has. -/
theorem flatfsRemove_none {s : Flat} (ready : s.Ready) (free : 0 < s.lock)
    (room : 3 ≤ s.totalblocks) {filename : Name}
    (absent : findEntry (s.blocks 2) filename = none) :
    ∃ t, Volume.Unchanged s t ∧ flatfsRemove filename s = .returned (VFS_NOT_FOUND, t) := by
  refine ⟨_, Volume.Unchanged.unlock ⟨.didRead 2 .md, rfl⟩, ?_⟩
  rw [flatfsRemove, Prog.bind_of_returned (Volume.lockP_free free),
    Prog.bind_of_returned (Volume.readMd ready.locked room)]
  simp only [if_true, Prog.bind_gets_apply, Volume.didRead_buffer, Function.update_self,
    Volume.locked_blocks, absent]
  rfl

/-- A file stays small when the blocks that a write needs fit on the volume. -/
theorem WriteInside.size_small {ino : Block} {n off : CInt} (inside : WriteInside ino n off)
    (fits : writeNeed ino n off ≤ 4096) :
    max (ino 0).toNat (off.val + n.val).toNat < 0x80000000 := by
  have before := inside.size.2
  have bound := inside.bound
  unfold FLATFS_MAX_BLOCKS FLATFS_BLOCKS_DIRECT FLATFS_BLOCKS_SINDIR FLATFS_BLOCKS_DINDIR at bound
  unfold writeNeed at fits
  have last : writeEnd n off ≤ 16519 + 4096 := by omega
  unfold writeEnd blocksOf at last
  omega

/-- **One call**: what it does to the image, if it returns. -/
theorem flat_change {s t : Flat} {op : TfsOp} {reply : TfsReply} (mounted : FlatMounted s)
    (removable : op.Removable (s.blocks 2)) (permitted : op.FlatPermitted s)
    (taken : op.flatRun s = .returned (reply, t)) :
    Volume.Same s t ∧ FlatChange s.totalblocks s.blocks t.blocks op := by
  have ⟨ready, free, room, image⟩ := mounted
  cases op with
  | create filename size =>
      obtain ⟨result, ran, -⟩ := flatRun_int taken
      rcases flatfsCreate_cases mounted filename size with
        ⟨u, made, same, kept, -⟩ | ⟨u, j, p, made, same, created, -⟩
      · cases made.symm.trans ran
        exact ⟨same, .kept kept⟩
      · cases made.symm.trans ran
        exact ⟨same, .created created⟩
  | openFile filename =>
      obtain ⟨result, ran, -⟩ := flatRun_int taken
      obtain ⟨u, unchanged, opened⟩ := flatfsOpen_ran ready free room filename
      have same : t = u := by
        rcases opened with ⟨-, opened⟩ | ⟨j, -, opened⟩
        · exact (Prod.mk.inj (Outcome.returned.inj (ran.symm.trans opened))).2
        · exact (Prod.mk.inj (Outcome.returned.inj (ran.symm.trans opened))).2
      rw [same]
      exact unchanged.flatChange
  | remove filename =>
      obtain ⟨result, ran, -⟩ := flatRun_int taken
      cases found : findEntry (s.blocks 2) filename with
      | none =>
          obtain ⟨u, unchanged, missed⟩ := flatfsRemove_none ready free room found
          cases missed.symm.trans ran
          exact unchanged.flatChange
      | some j =>
          have used := findEntry_sought image.blanked removable found
          obtain ⟨ends, only⟩ := flatfsRemove_cases mounted found used
          obtain ⟨u, removed, same, cleared, -⟩ := ends (only result t ran)
          cases removed.symm.trans ran
          exact ⟨same, .removed found cleared⟩
  | read fileid n off => exact (Volume.flatfsRead_unchanged taken).flatChange
  | write fileid buffer n off =>
      obtain ⟨result, ran, -⟩ := flatRun_int taken
      by_cases refused : FlatRefused s fileid n off
      · obtain ⟨u, written, unchanged, -⟩ := Volume.flatfsWrite_none free buffer refused
        cases written.symm.trans ran
        exact unchanged.flatChange
      · obtain ⟨some, j, used, isFile, fits⟩ := permitted.resolve_left refused
        have low : 0 ≤ off.val := by
          unfold FlatRefused at refused
          omega
        by_cases past : fileSize (s.blocks (inodeOf s.blocks j)) < off.val
        · obtain ⟨u, written, unchanged, -⟩ :=
            flatfsWrite_past mounted used isFile buffer some low past
          cases written.symm.trans ran
          exact unchanged.flatChange
        · have inside : WriteInside (s.blocks (inodeOf s.blocks j)) n off :=
            ⟨some, low, Int.not_lt.1 past, (image.file j used).bound⟩
          rcases fits.resolve_left past with full | enough
          · obtain ⟨u, written, same, kept⟩ :=
              flatfsWrite_unstarted mounted used isFile buffer inside full
            cases written.symm.trans ran
            exact ⟨same, .kept kept⟩
          · obtain ⟨r, u, stored, same, written, size⟩ :=
              flatfsWrite_cases mounted used isFile inside buffer enough
            cases stored.symm.trans ran
            refine ⟨same, .written written ?_⟩
            rw [size]
            exact inside.size_small (Nat.le_trans enough
              (Nat.le_trans (Lib.free_le _ _) ready.small))

/-! ## Runs -/

/-- A FlatFS volume without files. -/
structure FlatNew (s : Flat) : Prop where
  mounted : FlatMounted s
  unused : ∀ j, ¬ Used (s.blocks 2) j

theorem flatNew_tenBlocks : FlatNew tenBlocks where
  mounted := flatMounted_tenBlocks
  unused := fun _ used => used.2 rfl

/-- **Runs.**  What every change of the image keeps, every run keeps. -/
theorem flat_runs {initial : Flat → Prop} {ok : Flat → TfsOp → Prop}
    {I : Nat → (Nat → Block) → Prop}
    (allowed : ∀ s op, ok s op → op.Removable (s.blocks 2) ∧ op.FlatPermitted s)
    (start : ∀ s, initial s → FlatMounted s ∧ I s.totalblocks s.blocks)
    (keep : ∀ {s op blocks'}, FlatMounted s → ok s op → I s.totalblocks s.blocks →
      FlatChange s.totalblocks s.blocks blocks' op → I s.totalblocks blocks') {s : Flat}
    (run : (flatSystem initial).ReachableWhen ok s) :
    FlatMounted s ∧ I s.totalblocks s.blocks := by
  refine run.invariant (I := fun s => FlatMounted s ∧ I s.totalblocks s.blocks) start ?_
  rintro s op t ⟨mounted, holds⟩ legal taken
  obtain ⟨reply, ran⟩ := flatSystem_step.1 taken
  obtain ⟨removable, permitted⟩ := allowed s op legal
  obtain ⟨same, change⟩ := flat_change mounted removable permitted ran
  refine ⟨mounted.same same (change.image' mounted.ready.small mounted.image), ?_⟩
  rw [same.totalblocks]
  exact keep mounted legal holds change

end Buenos.Fs
