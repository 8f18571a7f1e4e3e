/-
# Fs.VfsFiles -- the files behind the VFS, on TFS and FlatFS volumes

The filesystems that the kernel mounts are TFS and FlatFS volumes.  Here they are storages in
the sense of `Storage`: a TFS volume makes the steps of `FileStep` and a FlatFS volume those of
`FlatLife`, and `driverOps` serves both.

`vfs_refines` is the refinement from the VFS down to the disks: in every run from volumes without
files and a table without open files, whatever the mixture of volumes, the programs see a set of
named files and open files, and every legal call replies and changes them as `ViewStep` says.
`reads_back` is what it is for: bytes written through an open file are read back through any open
file on the same file, whatever calls come in between that neither write to it nor remove it.
-/
import Buenos.Fs.FlatLifetime
import Buenos.Fs.Handles

namespace Buenos.Fs

open Buenos.Lib Buenos.Theory

set_option autoImplicit false

/-! ## The two storages -/

section FileStep

variable {files files' : Files} {op : TfsOp} {reply : TfsReply} {filename : Name}
  {fileid n off : CInt} {buffer : Nat → Byte} {i : Nat} {file : File}

theorem same_fileid {x : Int} {i k : Nat} (one : x = i) (other : x = k) : k = i := by omega

theorem fileStep_opened (step : FileStep files (.openFile filename) reply files') :
    files' = files ∧ (reply.1 < 0 ∨ ∃ i file, reply.1 = (i : Nat) ∧ files i = some file ∧
      file.name = filename) := by
  cases step with
  | opened at_ name => exact ⟨rfl, .inr ⟨_, _, rfl, at_, name⟩⟩
  | notFound => exact ⟨rfl, .inl (by decide)⟩

theorem fileStep_read (step : FileStep files (.read fileid n off) reply files')
    (isFile : fileid.val = (i : Nat)) (at_ : files i = some file) :
    files' = files ∧ (0 ≤ off.val ∧ off.val ≤ file.size → reply =
      (min n.val (file.size - off.val), (file.bytes.drop off.val.toNat).take n.val.toNat)) ∧
      (¬ (0 ≤ off.val ∧ off.val ≤ file.size) → reply.1 < 0) := by
  cases step with
  | read isFile' at' =>
      cases same_fileid isFile isFile'
      cases at_.symm.trans at'
      refine ⟨rfl, fun inside => if_pos inside, fun outside => ?_⟩
      rw [if_neg outside]
      decide

theorem fileStep_written (step : FileStep files (.write fileid buffer n off) reply files')
    (isFile : fileid.val = (i : Nat)) (at_ : files i = some file) (moved : 0 < reply.1) :
    0 ≤ off.val ∧ reply.1 ≤ n.val ∧ ∃ file', files' i = some file' ∧
      off.val + reply.1 ≤ file'.size ∧
        ∀ k < reply.1.toNat, file'.bytes[off.val.toNat + k]? = some (buffer k) := by
  cases step with
  | @written _ _ _ _ _ file₁ isFile' at' =>
      cases same_fileid isFile isFile'
      cases at_.symm.trans at'
      by_cases inside : 0 ≤ off.val ∧ off.val ≤ file.size
      · simp only [if_pos inside] at moved ⊢
        refine ⟨inside.1, min_le_left _ _, _, Function.update_self _ _ _, ?_, fun k less => ?_⟩
        · have := min_le_right n.val (file.size - off.val)
          simp only [File.overwrite]
          omega
        · have full := file.full
          rw [transfer, if_pos inside]
          simp only [File.overwrite, List.getElem?_mapIdx]
          rw [List.getElem?_eq_getElem (by omega), Option.map_some, if_pos ⟨by omega, by omega⟩,
            Nat.add_sub_cancel_left]
      · simp only [if_neg inside] at moved
        exact absurd moved (by decide)

theorem fileStep_spared (step : FileStep files op reply files') (spares : op.Spares files i)
    (alive : files i ≠ none) : files' i = files i := by
  cases step with
  | created _ vacant =>
      refine Function.update_of_ne ?_ _ _
      rintro rfl
      exact alive vacant
  | removed at_ name =>
      refine Function.update_of_ne ?_ _ _
      rintro rfl
      exact spares _ at_ name
  | written isFile =>
      refine Function.update_of_ne ?_ _ _
      rintro rfl
      exact spares isFile
  | notCreated | opened | notFound | notRemoved | read => rfl

theorem update_alive (alive : files i ≠ none) (k : Nat) (f : File) :
    Function.update files k (some f) i ≠ none := by
  by_cases same : i = k
  · rw [same, Function.update_self]
    exact Option.some_ne_none f
  · rw [Function.update_of_ne same]
    exact alive

theorem fileStep_retained (step : FileStep files op reply files') (retains : op.Retains files i)
    (alive : files i ≠ none) : files' i ≠ none := by
  cases step with
  | created => exact update_alive alive _ _
  | written => exact update_alive alive _ _
  | removed at_ name =>
      rw [Function.update_of_ne]
      · exact alive
      · rintro rfl
        exact retains _ at_ name
  | notCreated | opened | notFound | notRemoved | read => exact alive

end FileStep

section FlatLife

variable {files files' : Files} {op : TfsOp} {reply : TfsReply} {filename : Name}
  {fileid n off : CInt} {buffer : Nat → Byte} {i : Nat} {file : File}

theorem flatLife_opened (step : FlatLife files (.openFile filename) reply files') :
    files' = files ∧ (reply.1 < 0 ∨ ∃ i file, reply.1 = (i : Nat) ∧ files i = some file ∧
      file.name = filename) := by
  cases step with
  | kept step =>
      cases step with
      | opened at_ name => exact ⟨rfl, .inr ⟨_, _, rfl, at_, name⟩⟩
      | notFound => exact ⟨rfl, .inl (by decide)⟩

theorem flatLife_read (step : FlatLife files (.read fileid n off) reply files')
    (isFile : fileid.val = (i : Nat)) (at_ : files i = some file) :
    files' = files ∧ (0 ≤ off.val ∧ off.val ≤ file.size → reply =
      (min n.val (file.size - off.val), (file.bytes.drop off.val.toNat).take n.val.toNat)) ∧
      (¬ (0 ≤ off.val ∧ off.val ≤ file.size) → reply.1 < 0) := by
  cases step with
  | kept step =>
      cases step with
      | read isFile' at' =>
          cases same_fileid isFile isFile'
          cases at_.symm.trans at'
          refine ⟨rfl, fun inside => if_pos inside, fun outside => ?_⟩
          rw [if_neg outside]
          decide

theorem flatLife_written (step : FlatLife files (.write fileid buffer n off) reply files')
    (isFile : fileid.val = (i : Nat)) (at_ : files i = some file) (moved : 0 < reply.1) :
    0 ≤ off.val ∧ reply.1 ≤ n.val ∧ ∃ file', files' i = some file' ∧
      off.val + reply.1 ≤ file'.size ∧
        ∀ k < reply.1.toNat, file'.bytes[off.val.toNat + k]? = some (buffer k) := by
  cases step with
  | kept step =>
      cases step with
      | @written _ _ _ _ _ start _ within isFile' at' some starts past =>
          cases same_fileid isFile isFile'
          cases at_.symm.trans at'
          refine ⟨by omega, le_refl _, _, Function.update_self _ _ _, ?_, fun k less => ?_⟩
          · simp only [File.splice, List.length_map, List.length_range]
            omega
          · rw [starts, Int.toNat_natCast]
            simp only [File.splice]
            rw [List.getElem?_append_left (by simp; omega), List.getElem?_append_right (by simp)]
            simp only [List.length_take, Nat.min_eq_left within, Nat.add_sub_cancel_left,
              List.getElem?_map, List.getElem?_range less, Option.map_some]
      | notWritten isFile' at' outside =>
          simp only at moved
          split at moved
          · exact absurd moved (by decide)
          · split at moved
            · exact absurd moved (by decide)
            · exact absurd moved (by decide)

theorem flatLife_spared (step : FlatLife files op reply files') (spares : op.Spares files i)
    (alive : files i ≠ none) : files' i = files i := by
  cases step with
  | kept step =>
      cases step with
      | created _ vacant =>
          refine Function.update_of_ne ?_ _ _
          rintro rfl
          exact alive vacant
      | written _ isFile =>
          refine Function.update_of_ne ?_ _ _
          rintro rfl
          exact spares isFile
      | notCreated | opened | notFound | read | notWritten => rfl
  | removed at_ name =>
      refine Function.update_of_ne ?_ _ _
      rintro rfl
      exact spares _ at_ name
  | notRemoved => rfl

theorem flatLife_retained (step : FlatLife files op reply files') (retains : op.Retains files i)
    (alive : files i ≠ none) : files' i ≠ none := by
  cases step with
  | kept step =>
      cases step with
      | created => exact update_alive alive _ _
      | written => exact update_alive alive _ _
      | notCreated | opened | notFound | read | notWritten => exact alive
  | removed at_ name =>
      rw [Function.update_of_ne]
      · exact alive
      · rintro rfl
        exact retains _ at_ name
  | notRemoved => exact alive

end FlatLife

/-- The files of a volume, with the driver they are kept by. -/
inductive Contents where
  | tfs (files : Files)
  | flatfs (files : Files)

namespace Contents

def files : Contents → Files
  | .tfs files => files
  | .flatfs files => files

def step : Contents → TfsOp → TfsReply → Contents → Prop
  | .tfs files, op, reply, .tfs files' => FileStep files op reply files'
  | .flatfs files, op, reply, .flatfs files' => FlatLife files op reply files'
  | _, _, _, _ => False

/-- Every step is one of a TFS volume or one of a FlatFS volume. -/
theorem step_cases {v w : Contents} {op : TfsOp} {reply : TfsReply} (step : v.step op reply w) :
    (∃ files files', v = .tfs files ∧ w = .tfs files' ∧ FileStep files op reply files') ∨
      ∃ files files', v = .flatfs files ∧ w = .flatfs files' ∧ FlatLife files op reply files' := by
  cases v with
  | tfs files =>
      cases w with
      | tfs files' => exact .inl ⟨_, _, rfl, rfl, step⟩
      | flatfs files' => exact step.elim
  | flatfs files =>
      cases w with
      | tfs files' => exact step.elim
      | flatfs files' => exact .inr ⟨_, _, rfl, rfl, step⟩

/-- The volume on a disk shows as its files. -/
def shows : FsInternal → Contents → Prop
  | .tfs volume, .tfs files => TfsMounted volume ∧ Holds volume.blocks files
  | .flatfs volume, .flatfs files => FlatMounted volume ∧ FlatHolds volume.blocks files
  | _, _ => False

/-- TFS makes every call.  FlatFS needs the blocks that the call takes, and does not get to the
end of removing some files. -/
def able : FsInternal → Contents → TfsOp → Prop
  | .flatfs volume, .flatfs files, op => op.FlatRoom volume ∧ op.Removes files
  | _, _, _ => True

end Contents

/-- **TFS and FlatFS volumes are storages.** -/
def contents : Storage Contents where
  files := Contents.files
  step := Contents.step
  opened := by
    intro v w filename reply step
    obtain ⟨_, _, rfl, rfl, step⟩ | ⟨_, _, rfl, rfl, step⟩ := Contents.step_cases step
    · obtain ⟨rfl, outcome⟩ := fileStep_opened step
      exact ⟨rfl, outcome⟩
    · obtain ⟨rfl, outcome⟩ := flatLife_opened step
      exact ⟨rfl, outcome⟩
  read := by
    intro v w fileid n off reply i file step isFile at_
    obtain ⟨_, _, rfl, rfl, step⟩ | ⟨_, _, rfl, rfl, step⟩ := Contents.step_cases step
    · obtain ⟨rfl, outcome⟩ := fileStep_read step isFile at_
      exact ⟨rfl, outcome⟩
    · obtain ⟨rfl, outcome⟩ := flatLife_read step isFile at_
      exact ⟨rfl, outcome⟩
  written := by
    intro v w fileid buffer n off reply i file step isFile at_ moved
    obtain ⟨_, _, rfl, rfl, step⟩ | ⟨_, _, rfl, rfl, step⟩ := Contents.step_cases step
    · exact fileStep_written step isFile at_ moved
    · exact flatLife_written step isFile at_ moved
  spared := by
    intro v w op reply i step spares alive
    obtain ⟨_, _, rfl, rfl, step⟩ | ⟨_, _, rfl, rfl, step⟩ := Contents.step_cases step
    · exact fileStep_spared step spares alive
    · exact flatLife_spared step spares alive
  retained := by
    intro v w op reply i step retains alive
    obtain ⟨_, _, rfl, rfl, step⟩ | ⟨_, _, rfl, rfl, step⟩ := Contents.step_cases step
    · exact fileStep_retained step retains alive
    · exact flatLife_retained step retains alive

/-! ## The drivers -/

/-- The reply of a call of the files, as the VFS gets it. -/
def TfsReply.toReply (reply : TfsReply) : Reply := ⟨reply.1, reply.2, []⟩

theorem perform_tfs {c : DriverCall} {op : TfsOp} (asked : c.fileOp = some op) :
    tfsOps.perform c = op.run >>= fun reply => pure reply.toReply := by
  cases c <;> cases asked <;> simp only [TfsOp.run, Prog.bind_assoc] <;> rfl

theorem perform_flatfs {c : DriverCall} {op : TfsOp} (asked : c.fileOp = some op) :
    flatfsOps.perform c = op.flatRun >>= fun reply => pure reply.toReply := by
  cases c <;> cases asked <;> simp only [TfsOp.flatRun, Prog.bind_assoc] <;> rfl

theorem call_bind {α β : Type} (m : Prog Tfs α) (n : Prog Flat α) (f : α → β) :
    (FsInternal.call m n >>= fun a => pure (f a)) =
      FsInternal.call (m >>= fun a => pure (f a)) (n >>= fun a => pure (f a)) := by
  funext s
  cases s with
  | tfs volume =>
      simp only [Prog.bind_apply, FsInternal.call]
      cases m volume <;> rfl
  | flatfs volume =>
      simp only [Prog.bind_apply, FsInternal.call]
      cases n volume <;> rfl

theorem perform_driver (c : DriverCall) :
    driverOps.perform c = FsInternal.call (tfsOps.perform c) (flatfsOps.perform c) := by
  cases c with
  | close fileid =>
      exact call_bind (tfsOps.close fileid) (flatfsOps.close fileid) fun ret => Reply.mk ret [] []
  | _ => exact call_bind _ _ _

section Shown

variable {blocks : Nat → Block} {content : Nat → File} {files files' : Files} {n i : Nat}

theorem Filed.unique (first : Filed blocks content files) (second : Filed blocks content files') :
    files = files' := by
  funext i
  apply Option.ext
  intro file
  exact (first i file).trans (second i file).symm

/-- A fileid of the files is one of the image. -/
theorem Filed.handle (filed : Filed blocks content files) (alive : files i ≠ none) {fileid : CInt}
    (isFile : fileid.val = i) : Handle blocks fileid := by
  obtain ⟨file, at_⟩ := Option.ne_none_iff_exists'.1 alive
  obtain ⟨j, used, place, -⟩ := (filed i file).1 at_
  exact ⟨j, used, by omega⟩

/-- What is right for the files is right for the image. -/
theorem Filed.legal (filed : Filed blocks content files) {op : TfsOp} (right : op.Right files) :
    op.Legal blocks ∧ op.FlatNamed blocks := by
  cases op with
  | create | openFile | remove => exact ⟨right, right⟩
  | read fileid n off | write fileid buffer n off =>
      obtain ⟨low, i, isFile, alive⟩ := right
      exact ⟨⟨low, filed.handle alive isFile⟩, low, filed.handle alive isFile⟩

theorem fileSize_lt (ino : Block) : fileSize ino < 0x80000000 := by
  have high := Int.bmod_lt (x := ((ino 0).toNat : Int)) (m := 0x100000000) (by decide)
  rw [fileSize, toInt32]
  omega

end Shown

/-- **The drivers make the steps of their files**, through the function pointers. -/
theorem drivers_serve : contents.Served driverOps Contents.shows Contents.able where
  serve := by
    intro d v c op asked shown right can
    rw [perform_driver]
    cases d with
    | tfs volume =>
        cases v with
        | flatfs => exact shown.elim
        | tfs files =>
            obtain ⟨mounted, holds⟩ := shown
            obtain ⟨reply, t, files', ran, mounted', step, holds', -⟩ :=
              tfs_step mounted holds (holds.filed.legal right).1
            refine ⟨reply.toReply, .tfs t, ?_, .tfs files', step, mounted', holds'⟩
            rw [FsInternal.call, perform_tfs asked, Prog.bind_of_returned ran]
            rfl
    | flatfs volume =>
        cases v with
        | tfs => exact shown.elim
        | flatfs files =>
            obtain ⟨mounted, holds⟩ := shown
            obtain ⟨fits, -⟩ := life_step mounted holds (Filed.legal holds right).2
            obtain ⟨keeps, ends⟩ := fits can.1
            obtain ⟨reply, t, ran, -⟩ := ends can.2
            obtain ⟨-, mounted', files', step, holds'⟩ := keeps reply t ran
            refine ⟨reply.toReply, .flatfs t, ?_, .flatfs files', step, mounted', holds'⟩
            rw [FsInternal.call, perform_flatfs asked, Prog.bind_of_returned ran]
            rfl
  close := by
    intro d v fileid shown
    cases d with
    | tfs volume => exact ⟨_, _, rfl, rfl, shown⟩
    | flatfs volume => exact ⟨_, _, rfl, rfl, shown⟩
  small := by
    intro d v i file shown at_
    cases d with
    | tfs volume =>
        cases v with
        | flatfs => exact shown.elim
        | tfs files =>
            obtain ⟨mounted, holds⟩ := shown
            obtain ⟨j, used, rfl, rfl⟩ := (holds i file).1 at_
            have inside := (mounted.image.inode_inside used).2
            have small := mounted.ready.small
            rw [fileOf_size]
            exact ⟨by omega, fileSize_lt _⟩
    | flatfs volume =>
        cases v with
        | tfs => exact shown.elim
        | flatfs files =>
            obtain ⟨mounted, holds⟩ := shown
            obtain ⟨j, used, rfl, rfl⟩ := (holds i file).1 at_
            have inside := (mounted.image.inode_inside used).2
            have small := mounted.ready.small
            rw [flatFileOf_size]
            exact ⟨by omega, fileSize_lt _⟩

theorem Contents.shows_unique {d : FsInternal} {v w : Contents} (first : Contents.shows d v)
    (second : Contents.shows d w) : v = w := by
  cases d with
  | tfs volume =>
      cases v with
      | flatfs => exact first.elim
      | tfs files =>
          cases w with
          | flatfs => exact second.elim
          | tfs files' => rw [Filed.unique first.2 second.2]
  | flatfs volume =>
      cases v with
      | tfs => exact first.elim
      | flatfs files =>
          cases w with
          | tfs => exact second.elim
          | flatfs files' => rw [Filed.unique first.2 second.2]

/-! ## Runs -/

/-- What the programs see. -/
abbrev Vfs.Shows (s : Vfs FsInternal) (v : View Contents) : Prop :=
  s.Views contents Contents.shows v

/-- The call is legal, as the programs see the filesystems. -/
def FileCall.Allowed (c : FileCall) (s : Vfs FsInternal) : Prop :=
  ∀ v, s.Shows v → c.Legal contents Contents.able s v

/-- The calls that programs make of the VFS, each taken when it returns. -/
def fileSystem (initial : Vfs FsInternal → Prop) : System (Vfs FsInternal) FileCall where
  initial := initial
  step s c := match c.run driverOps s with
    | .returned (_, t) => some t
    | .stopped _ => none

theorem fileSystem_step {initial : Vfs FsInternal → Prop} {s t : Vfs FsInternal} {c : FileCall} :
    (fileSystem initial).step s c = some t ↔ ∃ reply, c.run driverOps s = .returned (reply, t) := by
  unfold fileSystem
  dsimp only
  split
  · rename_i reply u ran
    simp [ran]
  · rename_i ran
    simp [ran]

/-- A volume without files. -/
def FsInternal.New : FsInternal → Prop
  | .tfs volume => Empty volume
  | .flatfs volume => FlatNew volume

/-- Volumes without files, and no file open. -/
structure Booted (s : Vfs FsInternal) : Prop where
  idle : s.Idle
  usable : s.vfsUsable = true
  closed : ∀ row, (s.files row).filesystem = none
  new : ∀ fs, (s.internal fs).New

/-- No files, kept by the driver of the volume. -/
def FsInternal.noFiles : FsInternal → Contents
  | .tfs _ => .tfs fun _ => none
  | .flatfs _ => .flatfs fun _ => none

/-- Volumes that show as their files, with no file open. -/
theorem shows_closed {s : Vfs FsInternal} (idle : s.Idle) (usable : s.vfsUsable = true)
    (closed : ∀ row, (s.files row).filesystem = none) (volumes : Nat → Contents)
    (shown : ∀ fs, Contents.shows (s.internal fs) (volumes fs)) :
    s.Shows ⟨vfsGetFilesystem s, volumes, fun _ => none⟩ where
  idle := idle
  usable := usable
  mounts _ := rfl
  volumes := shown
  inside _ _ isOpen := nomatch isOpen
  vacant row _ _ := closed row
  rows _ _ isOpen := nomatch isOpen

theorem Booted.shows {s : Vfs FsInternal} (booted : Booted s) :
    s.Shows ⟨vfsGetFilesystem s, fun fs => (s.internal fs).noFiles, fun _ => none⟩ := by
  refine shows_closed booted.idle booted.usable booted.closed _ fun fs => ?_
  have new := booted.new fs
  cases volume : s.internal fs with
  | tfs tfs =>
      rw [volume] at new
      exact ⟨Empty.mounted new, Empty.holds new⟩
  | flatfs flat =>
      rw [volume] at new
      exact ⟨FlatNew.mounted new, FlatNew.holds new⟩

/-- A legal call from a state that shows as a view. -/
theorem call_step {s t : Vfs FsInternal} {v : View Contents} {c : FileCall} (shown : s.Shows v)
    (legal : c.Legal contents Contents.able s v) {initial : Vfs FsInternal → Prop}
    (taken : (fileSystem initial).step s c = some t) :
    ∃ reply w, ViewStep contents v c reply w ∧ t.Shows w := by
  obtain ⟨reply, ran⟩ := fileSystem_step.1 taken
  obtain ⟨reply', t', ran', w, step, shown'⟩ := view_step drivers_serve shown legal
  cases ran.symm.trans ran'
  exact ⟨reply, w, step, shown'⟩

theorem shown_reachable {s : Vfs FsInternal}
    (run : (fileSystem Booted).ReachableWhen (fun s c => c.Allowed s) s) : ∃ v, s.Shows v := by
  refine run.invariant (I := fun s => ∃ v, s.Shows v) (fun s (booted : Booted s) => ⟨_, booted.shows⟩) ?_
  rintro s c t ⟨v, shown⟩ allowed taken
  obtain ⟨-, w, -, shown'⟩ := call_step shown (allowed v shown) taken
  exact ⟨w, shown'⟩

/-- **The VFS refines files and open files.**  In every run of legal calls from volumes without
files, TFS and FlatFS in any mixture, the VFS, its drivers and their disks show as named files and
open files with positions, and every legal call returns, replies and changes what is seen as
`ViewStep` says. -/
theorem vfs_refines {s : Vfs FsInternal}
    (run : (fileSystem Booted).ReachableWhen (fun s c => c.Allowed s) s) :
    ∃ v, s.Shows v ∧ ∀ c : FileCall, c.Legal contents Contents.able s v →
      (c.run driverOps).Ends s fun reply t => ∃ w, ViewStep contents v c reply w ∧ t.Shows w := by
  obtain ⟨v, shown⟩ := shown_reachable run
  exact ⟨v, shown, fun c legal => view_step drivers_serve shown legal⟩

/-- **A file is as its last write left it.**  Legal calls that neither write to a file nor remove
it leave it as it is, whatever they do to other files and open files. -/
theorem file_stays {s t : Vfs FsInternal} {v : View Contents} (shown : s.Shows v) {fs i : Nat}
    (alive : (v.volumes fs).files i ≠ none) {initial : Vfs FsInternal → Prop} {cs : List FileCall}
    (allowed : (fileSystem initial).Guarded (fun s c => ∀ v, s.Shows v →
      c.Legal contents Contents.able s v ∧ c.Spares contents v fs i) s cs)
    (ran : (fileSystem initial).exec s cs = some t) :
    ∃ w, t.Shows w ∧ (w.volumes fs).files i = (v.volumes fs).files i := by
  refine allowed.invariant (I := fun t => ∃ w, t.Shows w ∧
    (w.volumes fs).files i = (v.volumes fs).files i) ?_ ran ⟨v, shown, rfl⟩
  rintro s c t ⟨u, shown, same⟩ guard taken
  obtain ⟨legal, spares⟩ := guard u shown
  obtain ⟨reply, w, step, shown'⟩ := call_step shown legal taken
  exact ⟨w, shown', (step.spared spares fun gone => alive (same.symm.trans gone)).trans same⟩

/-- What a write that moved `m` bytes leaves in the file. -/
theorem write_leaves {s t : Vfs FsInternal} {v : View Contents} (shown : s.Shows v) {row : Nat}
    {h : FileHandle} (isOpen : v.handles row = some h) {bytes : List Byte} {n : CInt} {m : Int}
    (legal : (FileCall.write row bytes n).Legal contents Contents.able s v)
    (wrote : (FileCall.write row bytes n).run driverOps s = .returned ((m, []), t)) (moved : 0 < m) :
    m ≤ n.val ∧ ∃ w file, t.Shows w ∧ (w.volumes h.fs).files h.fileid = some file ∧
      h.position + m ≤ file.size ∧
        ∀ k < m.toNat, file.bytes[h.position + k]? = some (bytes.getD k 0) := by
  obtain ⟨reply, t', ran, w, step, shown'⟩ := view_step drivers_serve shown legal
  cases wrote.symm.trans ran
  cases step with
  | @written _ h₁ _ _ fileid off w' _ isOpen₁ isFile begins made =>
      cases isOpen.symm.trans isOpen₁
      obtain ⟨-, -, alive⟩ := shown.rows row h isOpen
      obtain ⟨file, at_⟩ := Option.ne_none_iff_exists'.1 alive
      obtain ⟨-, most, file', at', size, inside⟩ := contents.written made isFile at_ moved
      rw [begins] at size inside
      refine ⟨most, _, file', shown', ?_, size, inside⟩
      change (Function.update v.volumes h.fs w' h.fs).files h.fileid = some file'
      rw [Function.update_self]
      exact at'
  | badPath isPath | noVolume isPath | onVolume isPath => cases isPath

/-- **What is written is read back.**  A write through an open file moves `m` bytes; then come any
legal calls that neither write to the file nor remove it; then a read of bytes among those through
any open file on the same file, opened before or since, gives just these bytes. -/
theorem reads_back {s t u : Vfs FsInternal} {v w : View Contents} {row row' k : Nat}
    {h h' : FileHandle} {bytes : List Byte} {n q : CInt} {m : Int} {cs : List FileCall}
    {initial : Vfs FsInternal → Prop} (shown : s.Shows v) (isOpen : v.handles row = some h)
    (legal : (FileCall.write row bytes n).Legal contents Contents.able s v)
    (long : n.val ≤ bytes.length)
    (wrote : (FileCall.write row bytes n).run driverOps s = .returned ((m, []), t)) (moved : 0 < m)
    (allowed : (fileSystem initial).Guarded (fun s c => ∀ v, s.Shows v →
      c.Legal contents Contents.able s v ∧ c.Spares contents v h.fs h.fileid) t cs)
    (ran : (fileSystem initial).exec t cs = some u) (shown' : u.Shows w)
    (isOpen' : w.handles row' = some h') (same : h'.fs = h.fs ∧ h'.fileid = h.fileid)
    (begins : h'.position = h.position + k) (inside : k + q.val ≤ m)
    (legal' : (FileCall.read row' q).Legal contents Contents.able u w) :
    ((FileCall.read row' q).run driverOps).Ends u fun reply _ =>
      reply = (q.val, (bytes.drop k).take q.val.toNat) := by
  obtain ⟨most, w₁, file, shown₁, at₁, size, written⟩ := write_leaves shown isOpen legal wrote moved
  obtain ⟨w₂, shown₂, kept⟩ := file_stays shown₁ (by rw [at₁]; exact Option.some_ne_none _) allowed ran
  cases shown₂.unique Contents.shows_unique shown'
  rw [at₁, ← same.1, ← same.2] at kept
  have low : 0 ≤ q.val := legal'.nonneg
  refine (view_step drivers_serve shown' legal').mono ?_
  rintro reply u' ⟨w₃, step, -⟩
  cases step with
  | @read _ h₁ _ fileid off _ isOpen₁ isFile starts made =>
      cases isOpen'.symm.trans isOpen₁
      obtain ⟨-, full, -⟩ := contents.read made isFile kept
      rw [starts, begins] at full
      rw [full (by omega), Int.min_eq_left (by omega), Int.toNat_natCast, Prod.mk.injEq]
      refine ⟨rfl, List.ext_getElem? fun x => ?_⟩
      rw [List.getElem?_take, List.getElem?_take, List.getElem?_drop, List.getElem?_drop]
      split
      · rename_i less
        rw [Nat.add_assoc, written (k + x) (by omega), List.getElem?_eq_getElem (by omega),
          List.getD_eq_getElem _ _ (by omega)]
      · rfl
  | badPath isPath | noVolume isPath | onVolume isPath => cases isPath

/-! ## Two volumes -/

theorem tfsLetter_nonzero : (0x74#8 : Byte) ≠ 0 := by decide

theorem flatLetter_nonzero : (0x66#8 : Byte) ≠ 0 := by decide

/-- A TFS volume `[t]` and a FlatFS volume `[f]`. -/
def twoVolumes : Vfs FsInternal :=
  ((vfsInit fun fs => if fs = 0 then .tfs (emptyVolume 5) else .flatfs tenBlocks).setFilesystem 0
    ⟨some 0, [⟨0x74#8, tfsLetter_nonzero⟩]⟩).setFilesystem 1
      ⟨some 1, [⟨0x66#8, flatLetter_nonzero⟩]⟩

theorem booted_twoVolumes : Booted twoVolumes where
  idle := ⟨rfl, rfl, rfl, rfl⟩
  usable := rfl
  closed _ := rfl
  new := by
    intro fs
    by_cases first : fs = 0
    · have volume : twoVolumes.internal fs = .tfs (emptyVolume 5) := if_pos first
      rw [volume]
      exact empty_emptyVolume (by decide) (by decide)
    · have volume : twoVolumes.internal fs = .flatfs tenBlocks := if_neg first
      rw [volume]
      exact flatNew_tenBlocks

/-- A file made on the TFS volume, with the FlatFS volume beside it. -/
theorem vfs_refines_twoVolumes : ∃ c t, (fileSystem Booted).step twoVolumes c = some t ∧
    ∃ v, t.Shows v ∧ ∀ c : FileCall, c.Legal contents Contents.able t v →
      (c.run driverOps).Ends t fun reply u => ∃ w, ViewStep contents v c reply w ∧ u.Shows w := by
  have allowed : (FileCall.create ([leftBracket, ⟨0x74#8, by decide⟩, rightBracket] ++ newName)
      oneByte).Allowed twoVolumes := by
    intro v shown
    refine ⟨show 0 ≤ oneByte.val by decide, fun f => nofun, ?_⟩
    rintro pathname op isPath volume filename fs parsed found
    cases isPath
    cases (show vfsParsePathname ([leftBracket, ⟨0x74#8, by decide⟩, rightBracket] ++ newName) =
      some ([⟨0x74#8, by decide⟩], newName) by decide).symm.trans parsed
    rw [← shown.mounts] at found
    cases (show vfsGetFilesystem twoVolumes [⟨0x74#8, by decide⟩] = some 0 by decide).symm.trans found
    refine ⟨by decide, ?_, fun _ _ _ _ => trivial⟩
    have volume : twoVolumes.internal 0 = .tfs (emptyVolume 5) := rfl
    rw [volume]
    trivial
  obtain ⟨reply, t, ran, -⟩ :=
    view_step drivers_serve booted_twoVolumes.shows (allowed _ booted_twoVolumes.shows)
  have taken : (fileSystem Booted).step twoVolumes _ = some t := fileSystem_step.2 ⟨reply, ran⟩
  exact ⟨_, t, taken, vfs_refines (.step (.start booted_twoVolumes) allowed taken)⟩

/-- A FlatFS volume with one file, of one byte. -/
theorem exists_oneFile : ∃ (volume : Flat) (files : Files) (i : Nat), FlatMounted volume ∧
    FlatHolds volume.blocks files ∧ files i = some (.zeros newName 1) := by
  have room : (TfsOp.create newName oneByte).FlatRoom tenBlocks := fun _ => by decide +kernel
  have named : (TfsOp.create newName oneByte).FlatNamed tenBlocks.blocks :=
    show newName ≠ [] by decide
  have can : Creatable tenBlocks.totalblocks tenBlocks.blocks newName oneByte :=
    ⟨by decide, by decide +kernel, findSlot_of_unused (j := 0) (by decide) rfl, by decide +kernel⟩
  obtain ⟨result, t, ran, rfl, -⟩ := flatfsCreate_found flatMounted_tenBlocks (by decide) can
  obtain ⟨-, mounted, files, step, holds⟩ :=
    ((life_step flatMounted_tenBlocks flatNew_tenBlocks.holds named).1 room).1 _ t (flatRun_create ran)
  cases step with
  | kept step =>
      cases step with
      | created => exact ⟨t, _, _, mounted, holds, Function.update_self _ _ _⟩

/-- The file open in row 0, and a write of one byte to it that takes no block. -/
theorem exists_openFile : ∃ (s : Vfs FsInternal) (v : View Contents) (h : FileHandle) (files : Files),
    s.Shows v ∧ v.handles 0 = some h ∧ h.position = 0 ∧ v.volumes h.fs = .flatfs files ∧
      files h.fileid = some (.zeros newName 1) ∧
      (FileCall.write (0 : Nat) [7] oneByte).Legal contents Contents.able s v := by
  obtain ⟨volume, files, i, mounted, holds, at_⟩ := exists_oneFile
  have alive : files i ≠ none := by
    rw [at_]
    exact Option.some_ne_none _
  have closed : Vfs.Shows (vfsInit fun _ => .flatfs volume) _ :=
    shows_closed (idle_vfsInit _) rfl (fun _ => rfl) (fun _ => .flatfs files)
      fun _ => ⟨mounted, holds⟩
  have shown := closed.setRow (h := ⟨0, i, 0⟩) (show 0 < CONFIG_MAX_OPEN_FILES by decide)
    (by simp) alive
  have small := (drivers_serve.small (closed.volumes 0) at_).1
  refine ⟨_, _, ⟨0, i, 0⟩, files, shown, View.setHandle_handles _, rfl, rfl, at_,
    show 0 ≤ oneByte.val by decide, ?_, nofun⟩
  rintro f ⟨⟩
  refine ⟨0, _, rfl, View.setHandle_handles _, ?_⟩
  rintro op ⟨⟩
  refine ⟨fun j used isFile _ => ?_, trivial⟩
  rw [toCInt_natCast small, Int.natCast_inj] at isFile
  have one := Filed.of_used holds used
  rw [← isFile, at_, Option.some.injEq] at one
  have size : flatCount (volume.blocks (inodeOf volume.blocks j)) = 1 := by
    rw [flatCount, ← flatFileOf_size, ← one]
    rfl
  have last : writeEnd oneByte (toCInt (0 : Nat)) = 1 := by decide
  have need : writeNeed (volume.blocks (inodeOf volume.blocks j)) oneByte (toCInt (0 : Nat)) = 0 := by
    rw [writeNeed, if_neg fun new => absurd new.2 (by rw [last]; decide), last, size,
      Nat.sub_self, Nat.sub_self]
  rw [need]
  exact Nat.zero_le _

/-- Every driver reads. -/
theorem able_read (d : FsInternal) (v : Contents) (fileid n off : CInt) :
    Contents.able d v (.read fileid n off) := by
  cases d with
  | tfs => exact trivial
  | flatfs =>
      cases v with
      | tfs => exact trivial
      | flatfs => exact ⟨trivial, trivial⟩

theorem legal_seek {s : Vfs FsInternal} {v : View Contents} {row : Nat} {h : FileHandle}
    (isOpen : v.handles row = some h) {position : CInt} (low : 0 ≤ position.val) :
    (FileCall.seek row position).Legal contents Contents.able s v := by
  refine ⟨low, ?_, nofun⟩
  rintro f ⟨⟩
  exact ⟨row, h, rfl, isOpen, fun op asked => nomatch asked⟩

theorem legal_read {s : Vfs FsInternal} {v : View Contents} {row : Nat} {h : FileHandle}
    (isOpen : v.handles row = some h) {n : CInt} (low : 0 ≤ n.val) :
    (FileCall.read row n).Legal contents Contents.able s v := by
  refine ⟨low, ?_, nofun⟩
  rintro f ⟨⟩
  refine ⟨row, h, rfl, isOpen, ?_⟩
  rintro op ⟨⟩
  exact able_read _ _ _ _ _

/-- One byte written, the position set back, and the byte read. -/
theorem reads_back_seek : ∃ s t u : Vfs FsInternal,
    (FileCall.write (0 : Nat) [7] oneByte).run driverOps s = .returned ((1, []), t) ∧
    (fileSystem Booted).exec t [.seek (0 : Nat) ⟨0, by decide⟩] = some u ∧
    ((FileCall.read (0 : Nat) oneByte).run driverOps).Ends u fun reply _ => reply = (1, [7]) := by
  obtain ⟨s, v, h, files, shown, isOpen, start, volume, at_, legal⟩ := exists_openFile
  obtain ⟨reply, t, wrote, w, step, shown₁⟩ := view_step drivers_serve shown legal
  cases step with
  | badPath isPath | noVolume isPath | onVolume isPath => cases isPath
  | @written _ h₁ _ _ fileid off w' result isOpen₁ isFile begins made =>
      cases isOpen.symm.trans isOpen₁
      -- the write is inside the file
      have one : result = 1 := by
        obtain ⟨_, _, other, -⟩ | ⟨_, _, same, -, life⟩ := Contents.step_cases made
        · rw [volume] at other
          cases other
        · cases volume.symm.trans same
          cases life with
          | kept life =>
              cases life with
              | written => rfl
              | notWritten isFile' at' outside =>
                  cases same_fileid isFile isFile'
                  cases at_.symm.trans at'
                  rw [begins, start] at outside
                  exact absurd outside (by decide)
      subst one
      have here : ((v.setVolume h.fs w').setHandle 0 _).handles 0 = _ :=
        View.setHandle_handles (some { h with position := h.position + (1 : Int).toNat })
      have back : (FileCall.seek (0 : Nat) ⟨0, by decide⟩).Legal contents Contents.able t _ :=
        legal_seek here (le_refl _)
      obtain ⟨reply, u, sought, w₂, step, shown₂⟩ := view_step drivers_serve shown₁ back
      have taken : (fileSystem Booted).step t _ = some u := fileSystem_step.2 ⟨reply, sought⟩
      have ran : (fileSystem Booted).exec t [.seek (0 : Nat) ⟨0, by decide⟩] = some u := by
        rw [System.exec, taken]
        rfl
      refine ⟨s, t, u, wrote, ran, ?_⟩
      cases step with
      | badPath isPath | noVolume isPath | onVolume isPath => cases isPath
      | @sought _ h₂ _ p isOpen₂ place =>
          cases here.symm.trans isOpen₂
          have start' : p = 0 := by
            dsimp only at place
            omega
          have rewound {v : View Contents} {g : FileHandle} :
              (v.setHandle 0 (some g)).handles 0 = some g := View.setHandle_handles _
          refine reads_back (k := 0) shown isOpen legal (by decide) wrote Int.one_pos ?_ ran shown₂
            rewound ⟨rfl, rfl⟩ ?_ (by decide) (legal_read rewound (by decide))
          · refine ⟨fun v₁ shown' => ?_, by rw [taken]; trivial⟩
            cases shown₁.unique Contents.shows_unique shown'
            refine ⟨back, ?_, ?_⟩
            · intro _ _ _ _ _ _ asked
              cases asked
            · intro _ _ _ _ isPath
              cases isPath
          · dsimp only
            omega

end Buenos.Fs
