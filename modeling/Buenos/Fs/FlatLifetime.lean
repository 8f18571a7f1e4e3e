/-
# Fs.FlatLifetime -- the files of a FlatFS volume, from `flatfs_create` to `flatfs_remove`

`FlatStep` says what the calls do to the files while none is removed.  `FlatLife` adds the
removal: a file goes whole, and every other file stays as it is, although the tables of the
removed file stay marked in the bitmap.  `flat_lifetime` is the refinement over the runs in
which files come and go.  A call that takes no more blocks than are free and removes a file of
a size that `flatfs_remove` gets to the end of (`File.Removable`) is a step of the files.  A
call that lacks blocks is refused one, and a removal of any other file does not return.
-/
import Buenos.Fs.FlatFiles

namespace Buenos.Fs

open Buenos.Lib Buenos.Theory

set_option autoImplicit false

/-- Past the first 135 blocks there are none, or they fill second-level tables. -/
def File.Removable (file : File) : Prop := (blocksOf file.size.toNat - 135) % 128 = 0

/-- **What the calls do to the files**, removal included, if no allocation is refused. -/
inductive FlatLife (files : Files) : TfsOp → TfsReply → Files → Prop
  | kept {op : TfsOp} {reply : TfsReply} {files' : Files} : FlatStep files op reply files' →
      FlatLife files op reply files'
  | removed {filename : Name} {i : Nat} {file : File} :
      files i = some file → file.name = filename → file.Removable →
      FlatLife files (.remove filename) (VFS_OK, []) (Function.update files i none)
  | notRemoved {filename : Name} : (∀ k file, files k = some file → file.name ≠ filename) →
      FlatLife files (.remove filename) (VFS_NOT_FOUND, []) files

/-! ## A file less -/

/-- **One entry's file** is gone, and the others are kept. -/
theorem Filed.drop {blocks blocks' : Nat → Block} {content content' : Nat → File} {files : Files}
    {j : Nat} (filed : Filed blocks content files)
    (gone : ¬ Used (blocks' 2) j)
    (others : ∀ k, k ≠ j → (Used (blocks' 2) k ↔ Used (blocks 2) k))
    (kept : ∀ k, k ≠ j → Used (blocks 2) k → inodeOf blocks' k = inodeOf blocks k ∧
      inodeOf blocks k ≠ inodeOf blocks j ∧ content' k = content k) :
    Filed blocks' content' (Function.update files (inodeOf blocks j) none) := by
  intro i file
  constructor
  · intro at_
    by_cases same : i = inodeOf blocks j
    · rw [same, Function.update_self] at at_
      cases at_
    · rw [Function.update_of_ne same] at at_
      obtain ⟨k, old, rfl, rfl⟩ := (filed i file).1 at_
      have ne : k ≠ j := fun h => same (by rw [h])
      obtain ⟨place, -, content⟩ := kept k ne old
      exact ⟨k, (others k ne).2 old, place, content⟩
  · rintro ⟨k, used', rfl, rfl⟩
    have ne : k ≠ j := fun h => gone (h ▸ used')
    have old := (others k ne).1 used'
    obtain ⟨place, apart, content⟩ := kept k ne old
    rw [place, Function.update_of_ne apart, filed.of_used old, content]

/-- **A file less** on a FlatFS volume. -/
theorem FlatHolds.clear {n : Nat} {blocks blocks' : Nat → Block} {files : Files} {j : Nat}
    (holds : FlatHolds blocks files) (image : FlatImage n blocks)
    (cleared : FlatCleared blocks blocks' j) :
    FlatHolds blocks' (Function.update files (inodeOf blocks j) none) := by
  obtain ⟨-, others⟩ := cleared.slots image
  refine Filed.drop holds (fun used => used.2 cleared.directory.inode)
    (fun k ne => others.used ne) fun k ne old => ⟨others.inode ne old, fun same => ?_, ?_⟩
  · have mem := FlatImage.inode_mem old
    rw [same] at mem
    exact image.held.apart k j ne mem (FlatImage.inode_mem cleared.used)
  · exact flatFileOf_congr old (cleared.directory.names k old.1 ne) (others.inode ne old)
      (others.owned k ne)

/-! ## Removing takes no blocks -/

namespace Volume

theorem assert_refused (p : Flat → Bool) (why : Stop) :
    Prog.Fixes (fun s : Flat => s.refused) (Prog.assert p why : Prog Flat Unit) := by
  intro s a t ran
  rw [Prog.assert_apply] at ran
  split at ran
  · cases ran
    rfl
  · cases ran

theorem flatfsFree_refused (block : Word) :
    Prog.Fixes (fun s : Flat => s.refused) (flatfsFree block) :=
  .bind (assert_refused _ _) fun _ => .bind (assert_refused _ _) fun _ => .modify fun _ => rfl

theorem freeNamed_refused (b : FlatBuffer) (n : Nat) :
    ∀ i, Prog.Fixes (fun s : Flat => s.refused) (freeNamed b i n) := by
  induction n with
  | zero => exact fun _ => .pure _
  | succ n ih =>
      intro i
      refine .bind (.gets _) fun block => .ite ?_ (ih (i + 1))
      exact .bind (flatfsFree_refused block) fun _ => ih (i + 1)

theorem flatfsRemoveIndir_refused (todbl : Option Nat) :
    Prog.Fixes (fun s : Flat => s.refused) (flatfsRemoveIndir todbl) := by
  refine .bind (assert_refused _ _) fun _ => .bind (.gets _) fun ind => ?_
  refine .bind (readBlock_refused _ _) fun loaded => .ite ?_ (.pure _)
  exact .bind (freeNamed_refused _ _ _) fun _ => .pure _

theorem removeDouble_refused (rounds : Nat) :
    ∀ i tmpblocks, Prog.Fixes (fun s : Flat => s.refused) (removeDouble rounds i tmpblocks) := by
  induction rounds with
  | zero =>
      intro i tmpblocks
      refine .ite (fun s a t ran => ?_) (.pure _)
      cases ran
  | succ rounds ih =>
      intro i tmpblocks
      refine .ite (.bind (flatfsRemoveIndir_refused _) fun done => ?_) (.pure _)
      exact .ite (ih _ _) (.pure _)

theorem removeStore_refused (index : Nat) :
    Prog.Fixes (fun s : Flat => s.refused) (removeStore index) := by
  refine .bind (.gets _) fun inode => .bind (flatfsFree_refused _) fun _ => ?_
  refine .bind (freeNamed_refused _ _ _) fun _ => .bind (.modify fun _ => rfl) fun _ => ?_
  refine .bind (.modify fun _ => rfl) fun _ => .bind (writeBuffer_refused _ _) fun stored => ?_
  refine .ite (.bind (writeBuffer_refused _ _) fun written => ?_) (unlock_refused _)
  exact .ite (unlock_refused _) (unlock_refused _)

theorem removeBlocks_refused (index : Nat) :
    Prog.Fixes (fun s : Flat => s.refused) (removeBlocks index) := by
  refine .bind (.gets _) fun numblocks => .bind (.gets _) fun dbl => ?_
  have rest : ∀ cleared : Bool, Prog.Fixes (fun s : Flat => s.refused) (if cleared then do
      let indir ← Prog.gets fun s : Flat => s.buffer .inode indirWord
      let cleared ← if 0 < indir.toNat then flatfsRemoveIndir none else pure true
      if cleared then removeStore index else unlock VFS_ERROR
    else unlock VFS_ERROR) := by
    intro cleared
    refine .ite (.bind (.gets _) fun indir => ?_) (unlock_refused _)
    refine .ite ?_ (.bind (.pure _) fun _ => .ite (removeStore_refused _) (unlock_refused _))
    exact .bind (flatfsRemoveIndir_refused _) fun _ =>
      .ite (removeStore_refused _) (unlock_refused _)
  refine .ite (.bind (readBlock_refused _ _) fun loaded => ?_) (.bind (.pure _) rest)
  exact .ite (.bind (removeDouble_refused _ _ _) rest) (.bind (.pure _) rest)

theorem flatfsRemove_refused (filename : Name) :
    Prog.Fixes (fun s : Flat => s.refused) (flatfsRemove filename) := by
  refine .bind lockP_refused fun _ => .bind (readBlock_refused _ _) fun loaded =>
    .ite (.bind (.gets _) fun md => ?_) (unlock_refused _)
  cases findEntry md filename with
  | none => exact unlock_refused _
  | some index =>
      refine .bind (readBlock_refused _ _) fun loaded => .ite ?_ (unlock_refused _)
      exact .bind (readBlock_refused _ _) fun loaded =>
        .ite (removeBlocks_refused _) (unlock_refused _)

end Volume

/-! ## Runs -/

/-- Names are not empty, fileids are those of files, and lengths are not negative. -/
def TfsOp.FlatNamed (blocks : Nat → Block) : TfsOp → Prop
  | .remove filename => filename ≠ []
  | op => op.FlatLegal blocks

/-- What the call removes is of a size that the removal gets to the end of. -/
def TfsOp.Removes (files : Files) : TfsOp → Prop
  | .remove filename => ∀ i file, files i = some file → file.name = filename → file.Removable
  | _ => True

/-- What the call removes is of a size that the removal never gets to the end of. -/
def TfsOp.Stuck (files : Files) : TfsOp → Prop
  | .remove filename => (∃ i file, files i = some file ∧ file.name = filename) ∧
      ∀ i file, files i = some file → file.name = filename → ¬ file.Removable
  | _ => False

section Steps

variable {s : Flat} {files : Files} (mounted : FlatMounted s) (holds : FlatHolds s.blocks files)

include mounted holds

/-- **`flatfs_remove`** is a step of the files if it returns; it returns for a removable file,
and it does not for any other. -/
theorem remove_step {filename : Name} (nonempty : filename ≠ []) :
    ((flatfsRemove filename).Keeps s fun result t => t.refused = s.refused ∧ FlatMounted t ∧
      ∃ files', FlatLife files (.remove filename) (result, []) files' ∧ FlatHolds t.blocks files') ∧
    ((TfsOp.remove filename).Removes files → (flatfsRemove filename).Ends s fun _ _ => True) ∧
    ((TfsOp.remove filename).Stuck files →
      ∀ result t, flatfsRemove filename s ≠ .returned (result, t)) := by
  have ⟨ready, free, room, image⟩ := mounted
  cases found : findEntry (s.blocks 2) filename with
  | none =>
      have absent := Filed.absent holds (flatFileOf_name _) found
      obtain ⟨t, unchanged, ran⟩ := flatfsRemove_none ready free room found
      refine ⟨Prog.Ends.keeps ⟨_, t, ran, Volume.flatfsRemove_refused filename s _ t ran,
        mounted.same unchanged.same ?_, files, .notRemoved absent, ?_⟩, fun _ => ⟨_, t, ran, trivial⟩,
        ?_⟩
      · rw [unchanged.disk]
        exact image
      · rw [unchanged.disk]
        exact holds
      · rintro ⟨⟨i, file, at_, name⟩, -⟩
        exact absurd name (absent i file at_)
  | some j =>
      obtain ⟨used, at_, name⟩ :=
        Filed.present holds (flatFileOf_name _) image.blanked nonempty found
      obtain ⟨ends, only⟩ := flatfsRemove_cases mounted found used
      have count : (flatFileOf s.blocks j).Removable ↔
          (flatCount (s.blocks (inodeOf s.blocks j)) - 135) % 128 = 0 := by
        rw [File.Removable, flatFileOf_size, flatCount]
      refine ⟨fun result t ran => ?_, fun removable => ?_, ?_⟩
      · have whole := only result t ran
        obtain ⟨u, removed, same, cleared, -⟩ := ends whole
        cases removed.symm.trans ran
        exact ⟨Volume.flatfsRemove_refused filename s _ _ ran,
          mounted.same same (cleared.image' image), _, .removed at_ name (count.2 whole),
          holds.clear image cleared⟩
      · obtain ⟨t, ran, -⟩ := ends (count.1 (removable _ _ at_ name))
        exact ⟨_, t, ran, trivial⟩
      · rintro ⟨-, stuck⟩ result t ran
        exact stuck _ _ at_ name (count.2 (only result t ran))

/-- **One call** of a volume that files come to and go from. -/
theorem life_step {op : TfsOp} (named : op.FlatNamed s.blocks) :
    (op.FlatRoom s → (op.flatRun.Keeps s fun reply t => t.refused = s.refused ∧ FlatMounted t ∧
      ∃ files', FlatLife files op reply files' ∧ FlatHolds t.blocks files') ∧
      (op.Removes files → op.flatRun.Ends s fun _ _ => True)) ∧
    (¬ op.FlatRoom s → op.flatRun.Keeps s fun _ t => s.refused < t.refused) ∧
    (op.Stuck files → ∀ reply t, op.flatRun s ≠ .returned (reply, t)) := by
  -- every call but the removal is a call of `flat_step`
  have stays (legal : op.FlatLegal s.blocks) (room : op.FlatRoom s) :
      (op.flatRun.Keeps s fun reply t => t.refused = s.refused ∧ FlatMounted t ∧
        ∃ files', FlatLife files op reply files' ∧ FlatHolds t.blocks files') ∧
      (op.Removes files → op.flatRun.Ends s fun _ _ => True) := by
    obtain ⟨reply, t, ran, none, mounted', files', step, holds'⟩ :=
      (flat_step mounted holds legal).1 room
    exact ⟨Prog.Ends.keeps ⟨reply, t, ran, none, mounted', files', .kept step, holds'⟩,
      fun _ => ⟨reply, t, ran, trivial⟩⟩
  have short (legal : op.FlatLegal s.blocks) := (flat_step mounted holds legal).2
  cases op with
  | remove filename =>
      obtain ⟨keeps, ends, stuck⟩ := @remove_step s files mounted holds filename named
      refine ⟨fun _ => ⟨?_, fun removable => ?_⟩, fun full => absurd trivial full, ?_⟩
      · exact keeps.bind fun _ _ step => .pure step
      · exact (ends removable).bind fun result t _ => ⟨_, t, rfl, trivial⟩
      · intro wedged reply t ran
        obtain ⟨result, removed, -⟩ := flatRun_int ran
        exact stuck wedged result t removed
  | create | openFile | read | write =>
      exact ⟨stays named, short named, fun stuck => stuck.elim⟩

end Steps

/-- **FlatFS refines byte arrays, from creation to removal.**  In every run from an empty volume
in which no allocation is refused, removals included, the image stands for a set of files.  A
call that finds the blocks it takes replies and changes the files as `FlatLife` says if it
returns, and it returns unless it removes a file that is not removable, which never does.  A
call that lacks blocks is refused one. -/
theorem flat_lifetime {s : Flat} (run : (flatSystem FlatNew).ReachableWhen
      (fun s op => op.FlatNamed s.blocks ∧ op.Served s) s) :
    ∃ files, FlatHolds s.blocks files ∧ ∀ op : TfsOp, op.FlatNamed s.blocks →
      (op.FlatRoom s → (op.flatRun.Keeps s fun reply t => t.refused = s.refused ∧
        ∃ files', FlatLife files op reply files' ∧ FlatHolds t.blocks files') ∧
        (op.Removes files → op.flatRun.Ends s fun _ _ => True)) ∧
      (¬ op.FlatRoom s → op.flatRun.Keeps s fun _ t => s.refused < t.refused) ∧
      (op.Stuck files → ∀ reply t, op.flatRun s ≠ .returned (reply, t)) := by
  have inv : FlatMounted s ∧ ∃ files, FlatHolds s.blocks files := by
    refine run.invariant (I := fun s => FlatMounted s ∧ ∃ files, FlatHolds s.blocks files)
      (fun s (new : FlatNew s) => ⟨new.mounted, _, new.holds⟩) ?_
    rintro s op t ⟨mounted, files, holds⟩ ⟨named, served⟩ taken
    obtain ⟨reply, ran⟩ := flatSystem_step.1 taken
    obtain ⟨fits, short, -⟩ := life_step mounted holds named
    have room : op.FlatRoom s := by
      by_contra full
      exact absurd (served reply t ran) (Nat.ne_of_gt (short full reply t ran))
    obtain ⟨-, mounted', files', -, holds'⟩ := (fits room).1 reply t ran
    exact ⟨mounted', files', holds'⟩
  obtain ⟨mounted, files, holds⟩ := inv
  refine ⟨files, holds, fun op named => ?_⟩
  obtain ⟨fits, rest⟩ := life_step mounted holds named
  refine ⟨fun room => ⟨(fits room).1.mono ?_, (fits room).2⟩, rest⟩
  rintro reply t ⟨none, -, files', step, holds'⟩
  exact ⟨none, files', step, holds'⟩

section Replies

variable {s t : Flat} {filename : Name} {size : CInt} {result : Int}

theorem flatRun_create (ran : flatfsCreate filename size s = .returned (result, t)) :
    (TfsOp.create filename size).flatRun s = .returned ((result, []), t) :=
  Prog.bind_of_returned ran

theorem flatRun_remove (ran : flatfsRemove filename s = .returned (result, t)) :
    (TfsOp.remove filename).flatRun s = .returned ((result, []), t) :=
  Prog.bind_of_returned ran

end Replies

/-- A file of one byte comes and goes. -/
theorem flat_lifetime_oneByte : ∃ s t, (flatSystem FlatNew).exec tenBlocks
      [.create newName oneByte, .remove newName] = some t ∧
    (flatSystem FlatNew).step s (.remove newName) = some t ∧
    ∃ files, FlatHolds t.blocks files ∧ ∀ op : TfsOp, op.FlatNamed t.blocks →
      (op.FlatRoom t → (op.flatRun.Keeps t fun reply u => u.refused = t.refused ∧
        ∃ files', FlatLife files op reply files' ∧ FlatHolds u.blocks files') ∧
        (op.Removes files → op.flatRun.Ends t fun _ _ => True)) ∧
      (¬ op.FlatRoom t → op.flatRun.Keeps t fun _ u => t.refused < u.refused) ∧
      (op.Stuck files → ∀ reply u, op.flatRun t ≠ .returned (reply, u)) := by
  have room : (TfsOp.create newName oneByte).FlatRoom tenBlocks := fun _ => by decide +kernel
  have can : Creatable tenBlocks.totalblocks tenBlocks.blocks newName oneByte :=
    ⟨by decide, by decide +kernel, findSlot_of_unused (j := 0) (by decide) rfl, by decide +kernel⟩
  obtain ⟨result, s, ran, -, mounted, j, found, used, count⟩ :=
    flatfsCreate_found flatMounted_tenBlocks (by decide) can
  obtain ⟨ends, -⟩ := flatfsRemove_cases mounted found used
  obtain ⟨t, gone, -⟩ := ends (by rw [count]; decide)
  have created := flatRun_create ran
  have removed := flatRun_remove gone
  have first : (flatSystem FlatNew).step tenBlocks (.create newName oneByte) = some s :=
    flatSystem_step.2 ⟨_, created⟩
  have second : (flatSystem FlatNew).step s (.remove newName) = some t :=
    flatSystem_step.2 ⟨_, removed⟩
  refine ⟨s, t, ?_, second, flat_lifetime (.step (.step (.start flatNew_tenBlocks) ?_ first) ?_ second)⟩
  · rw [System.exec, first, Option.bind_some, System.exec, second]
    rfl
  · refine ⟨show newName ≠ [] by decide, fun reply u ran' => ?_⟩
    have named : (TfsOp.create newName oneByte).FlatNamed tenBlocks.blocks :=
      show newName ≠ [] by decide
    exact (((life_step flatMounted_tenBlocks flatNew_tenBlocks.holds named).1 room).1 reply u
      ran').1
  · refine ⟨show newName ≠ [] by decide, fun reply u ran' => ?_⟩
    cases removed.symm.trans ran'
    exact Volume.flatfsRemove_refused newName s _ t gone

end Buenos.Fs
