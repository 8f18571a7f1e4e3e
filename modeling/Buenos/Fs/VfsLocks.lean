/-
# Fs.VfsLocks -- the locks of the VFS

What a call of the VFS adds to its three locks, to the number of operations in progress
and to the locks of the drivers.  A call that starts an operation has to give one back on
each of its returns, and on the way there every lock that it has taken.
-/
import Buenos.Fs.VfsCode
import Buenos.Theory.Balance
import Mathlib.Algebra.Group.Int.Defs
import Mathlib.Algebra.Group.Pi.Basic
import Mathlib.Algebra.Group.Prod
import Mathlib.Tactic.Abel

namespace Buenos.Fs

open Buenos.Lib Buenos.Theory Buenos.Theory.Prog

set_option autoImplicit false

/-- `vfs_table.sem`, `openfile_table.sem`, `vfs_op_sem`, `vfs_ops`, and a lock for each
filesystem. -/
abbrev Counts : Type := Int × Int × Int × Int × (Nat → Int)

variable {σ : Type}

def Vfs.counts (lock : σ → Int) (s : Vfs σ) : Counts :=
  (s.vfsTableSem, s.openfileTableSem, s.vfsOpSem, s.vfsOps, fun fs => lock (s.internal fs))

/-- `vfs_unmount_sem` is no lock: it is signalled once and not given back. -/
def VfsSem.unit : VfsSem → Counts
  | .vfsTable => (1, 0, 0, 0, 0)
  | .openfileTable => (0, 1, 0, 0, 0)
  | .vfsOp => (0, 0, 1, 0, 0)
  | .vfsUnmount => 0

def opUnit : Counts := (0, 0, 0, 1, 0)

/-- The functions of a driver but the unmount give its lock back. -/
structure FsOps.Balanced (lock : σ → Int) (ops : FsOps σ) : Prop where
  openFile : ∀ name, Prog.Balanced lock (ops.openFile name)
  close : ∀ fileid, Prog.Balanced lock (ops.close fileid)
  read : ∀ fileid size offset, Prog.Balanced lock (ops.read fileid size offset)
  write : ∀ fileid bytes size offset, Prog.Balanced lock (ops.write fileid bytes size offset)
  create : ∀ name size, Prog.Balanced lock (ops.create name size)
  remove : ∀ name, Prog.Balanced lock (ops.remove name)
  getfree : Prog.Balanced lock ops.getfree
  filecount : ∀ name, Prog.Balanced lock (ops.filecount name)
  file : ∀ name idx, Prog.Balanced lock (ops.file name idx)

section Calls

variable {lock : σ → Int} {ops : FsOps σ}

theorem semaphoreP_adds (k : VfsSem) :
    Adds (Vfs.counts lock) (semaphoreP k : Prog (Vfs σ) Unit) fun _ => -k.unit := by
  intro s a t ran
  unfold semaphoreP at ran
  split at ran
  · cases ran
    cases k <;> simp [Vfs.counts, Vfs.addSem, VfsSem.unit]
  · cases ran

theorem semaphoreV_adds (k : VfsSem) :
    Adds (Vfs.counts lock) (semaphoreV k : Prog (Vfs σ) Unit) fun _ => k.unit := by
  intro s a t ran
  cases ran
  cases k <;> simp [Vfs.counts, Vfs.addSem, VfsSem.unit]

theorem vfsStartOp_adds :
    Adds (Vfs.counts lock) (vfsStartOp : Prog (Vfs σ) Int) fun ret =>
      if ret = VFS_OK then opUnit else 0 := by
  refine (semaphoreP_adds .vfsOp).bind fun _ => .skip (.gets _) fun usable => .ite ?_ ?_
  · have counted : Adds (Vfs.counts lock)
        (Prog.modify fun s : Vfs σ => { s with vfsOps := s.vfsOps + 1 }) fun _ => opUnit := by
      intro s a t ran
      cases ran
      simp [Vfs.counts, opUnit]
    refine counted.bind fun _ => (semaphoreV_adds .vfsOp).bind fun _ => .pure ?_
    rw [if_pos rfl]
    abel
  · refine (semaphoreV_adds .vfsOp).bind fun _ => .pure ?_
    rw [if_neg (by decide)]
    abel

theorem vfsEndOp_adds :
    Adds (Vfs.counts lock) (vfsEndOp : Prog (Vfs σ) Unit) fun _ => -opUnit := by
  have counted : Adds (Vfs.counts lock)
      (Prog.modify fun s : Vfs σ => { s with vfsOps := s.vfsOps - 1 }) fun _ => -opUnit := by
    intro s a t ran
    cases ran
    simp [Vfs.counts, opUnit, sub_eq_add_neg]
  refine (semaphoreP_adds .vfsOp).bind fun _ => counted.bind fun _ => ?_
  refine .skip (.assert _ _) fun _ => .skip (.gets _) fun wake => .ite ?_ ?_
  · refine (semaphoreV_adds .vfsUnmount).bind fun _ => (semaphoreV_adds .vfsOp).congr fun _ => ?_
    simp only [VfsSem.unit]
    abel
  · refine (semaphoreV_adds .vfsOp).congr fun _ => ?_
    abel

theorem leave_adds {α : Type} (result : α) :
    Adds (Vfs.counts lock) (leave result : Prog (Vfs σ) α) fun _ => -opUnit :=
  vfsEndOp_adds.bind fun _ => .pure (sub_self _)

/-- A call that gives back the operation it started, unless the VFS is shut down. -/
theorem started {α : Type} {refused : α} {m : Prog (Vfs σ) α}
    (rest : Adds (Vfs.counts lock) m fun _ => -opUnit) :
    Balanced (Vfs.counts lock) (do
      let started ← vfsStartOp
      if started ≠ VFS_OK then pure refused else m) := by
  refine vfsStartOp_adds.bind fun ret => ?_
  by_cases ok : ret = VFS_OK
  · rw [if_neg (by simpa using ok), if_pos ok]
    exact rest.congr fun _ => (zero_sub _).symm
  · rw [if_pos ok, if_neg ok]
    exact .pure (sub_zero _)

theorem onFs_balanced {α : Type} {m : Prog σ α} (fs : Nat) (balanced : Balanced lock m) :
    Balanced (Vfs.counts lock) (onFs fs m) := by
  refine .zoom fun s a d ran => ?_
  have same := balanced.same _ _ _ ran
  have locks : (fun g => lock ((s.setInternal fs d).internal g)) = fun g => lock (s.internal g) := by
    funext g
    by_cases here : g = fs
    · subst here
      simpa [Vfs.setInternal] using same
    · simp [Vfs.setInternal, here]
  simp only [Vfs.counts, locks]
  rfl

theorem setFile_balanced (row : Nat) (entry : Vfs σ → OpenfileEntry) :
    Balanced (Vfs.counts lock) (Prog.modify fun s : Vfs σ => s.setFile row (entry s)) :=
  .modify fun _ => rfl

theorem setFilesystem_balanced (row : Nat) (entry : Vfs σ → VfsEntry) :
    Balanced (Vfs.counts lock) (Prog.modify fun s : Vfs σ => s.setFilesystem row (entry s)) :=
  .modify fun _ => rfl

/-- A return with one lock held. -/
theorem unlocked {α : Type} (k : VfsSem) (result : α) :
    Adds (Vfs.counts lock) (do semaphoreV k; leave result : Prog (Vfs σ) α) fun _ =>
      -opUnit - -k.unit :=
  (semaphoreV_adds k).bind fun _ => (leave_adds result).congr fun _ => by abel

/-- A return with both tables locked. -/
theorem bothUnlocked {α : Type} (result : α) :
    Adds (Vfs.counts lock)
      (do semaphoreV .openfileTable; semaphoreV .vfsTable; leave result : Prog (Vfs σ) α)
      fun _ => -opUnit - -VfsSem.unit .vfsTable - -VfsSem.unit .openfileTable :=
  (semaphoreV_adds .openfileTable).bind fun _ => (unlocked .vfsTable result).congr fun _ => by abel

theorem vfsMount_balanced (fs : Nat) (name : Name) :
    Balanced (Vfs.counts lock) (vfsMount fs name : Prog (Vfs σ) Int) := by
  refine .skip (.assert _ _) fun _ => started ((semaphoreP_adds .vfsTable).bind fun _ => ?_)
  apply Adds.skip (.gets _)
  intro free
  cases free with
  | none => exact unlocked .vfsTable VFS_LIMIT
  | some row =>
      apply Adds.skip (.gets _)
      intro known
      cases known with
      | some other => exact unlocked .vfsTable VFS_ERROR
      | none => exact .skip (setFilesystem_balanced _ _) fun _ => unlocked .vfsTable VFS_OK

/-- `balanced` fails of the drivers here, which never release the lock they destroy: the
theorem is used with a `lock` that reads nothing. -/
theorem vfsUnmount_balanced (balanced : Prog.Balanced lock ops.unmount) (name : Name) :
    Balanced (Vfs.counts lock) (vfsUnmount ops name) := by
  refine started ((semaphoreP_adds .vfsTable).bind fun _ => ?_)
  apply Adds.skip (.gets _)
  intro found
  apply Adds.skip (.gets _)
  intro fs
  cases found with
  | none => exact unlocked .vfsTable VFS_NOT_FOUND
  | some row =>
      cases fs with
      | none => exact unlocked .vfsTable VFS_NOT_FOUND
      | some fs =>
          refine (semaphoreP_adds .openfileTable).bind fun _ => ?_
          apply Adds.skip (.gets _)
          intro inUse
          cases inUse with
          | some i => exact bothUnlocked VFS_IN_USE
          | none =>
              refine .skip (onFs_balanced fs balanced) fun _ => ?_
              exact .skip (setFilesystem_balanced _ _) fun _ => bothUnlocked VFS_OK

theorem vfsOpen_balanced (balanced : ops.Balanced lock) (pathname : Name) :
    Balanced (Vfs.counts lock) (vfsOpen ops pathname) := by
  refine started ?_
  cases vfsParsePathname pathname with
  | none => exact leave_adds VFS_ERROR
  | some names =>
      refine (semaphoreP_adds .vfsTable).bind fun _ => ?_
      refine (semaphoreP_adds .openfileTable).bind fun _ => ?_
      apply Adds.skip (.gets _)
      intro row
      cases row with
      | none => exact bothUnlocked VFS_LIMIT
      | some file =>
          apply Adds.skip (.gets _)
          intro fs
          cases fs with
          | none => exact bothUnlocked VFS_NO_SUCH_FS
          | some fs =>
              refine .skip (setFile_balanced _ _) fun _ => ?_
              refine (semaphoreV_adds .openfileTable).bind fun _ => ?_
              refine (semaphoreV_adds .vfsTable).bind fun _ => ?_
              -- both tables are free while the driver looks for the file
              have rest : Adds (Vfs.counts lock) (do
                  let fileid ← onFs fs (ops.openFile names.2)
                  if fileid < 0 then do
                    semaphoreP .openfileTable
                    Prog.modify fun s =>
                      s.setFile file { s.files file with filesystem := none }
                    semaphoreV .openfileTable
                    leave fileid
                  else do
                    Prog.modify fun s =>
                      s.setFile file { s.files file with fileid := fileid, seekPosition := 0 }
                    leave (file : Int)) fun _ => -opUnit := by
                refine .skip (onFs_balanced fs (balanced.openFile _)) fun fileid => .ite ?_ ?_
                · refine (semaphoreP_adds .openfileTable).bind fun _ => ?_
                  exact .skip (setFile_balanced _ _) fun _ => unlocked .openfileTable fileid
                · exact .skip (setFile_balanced _ _) fun _ => leave_adds _
              exact rest.congr fun _ => by abel

theorem vfsVerifyOpen_balanced (file : Int) :
    Balanced (Vfs.counts lock) (vfsVerifyOpen file : Prog (Vfs σ) (Nat × Nat)) := by
  apply balanced_of_same
  intro s a t ran
  unfold vfsVerifyOpen at ran
  split at ran
  · cases ran
    rfl
  · cases ran

theorem vfsClose_balanced (balanced : ops.Balanced lock) (file : Int) :
    Balanced (Vfs.counts lock) (vfsClose ops file) := by
  refine started ((semaphoreP_adds .openfileTable).bind fun _ => ?_)
  refine .skip (vfsVerifyOpen_balanced file) fun r => .skip (.gets _) fun fileid => ?_
  refine .skip (onFs_balanced _ (balanced.close fileid)) fun ret => ?_
  exact .skip (setFile_balanced _ _) fun _ => unlocked .openfileTable ret

theorem vfsSeek_balanced (file seekPosition : Int) :
    Balanced (Vfs.counts lock) (vfsSeek file seekPosition : Prog (Vfs σ) Int) := by
  refine started (.skip (.assert _ _) fun _ => ?_)
  refine (semaphoreP_adds .openfileTable).bind fun _ => ?_
  refine .skip (vfsVerifyOpen_balanced file) fun r => ?_
  exact .skip (setFile_balanced _ _) fun _ => unlocked .openfileTable VFS_OK

theorem advance_balanced (row : Nat) (ret : Int) :
    Balanced (Vfs.counts lock) (advance row ret : Prog (Vfs σ) Unit) := by
  refine .ite ((semaphoreP_adds .openfileTable).bind fun _ => ?_) (.pure rfl)
  refine .skip (setFile_balanced _ _) fun _ => ?_
  exact (semaphoreV_adds .openfileTable).congr fun _ => by abel

theorem vfsRead_balanced (balanced : ops.Balanced lock) (file : Int) (buffer : Bool)
    (bufsize : Int) : Balanced (Vfs.counts lock) (vfsRead ops file buffer bufsize) := by
  refine started (.skip (vfsVerifyOpen_balanced file) fun r => ?_)
  refine .skip (.assert _ _) fun _ => .skip (.gets _) fun entry => ?_
  refine .skip (onFs_balanced _ (balanced.read _ _ _)) fun ret => ?_
  exact .skip (advance_balanced _ _) fun _ => leave_adds ret

theorem vfsWrite_balanced (balanced : ops.Balanced lock) (file : Int)
    (buffer : Option (List Byte)) (datasize : Int) :
    Balanced (Vfs.counts lock) (vfsWrite ops file buffer datasize) := by
  refine started (.skip (vfsVerifyOpen_balanced file) fun r => ?_)
  cases buffer with
  | none => exact .stop _
  | some bytes =>
      refine .skip (.assert _ _) fun _ => .skip (.gets _) fun entry => ?_
      refine .skip (onFs_balanced _ (balanced.write _ _ _ _)) fun ret => ?_
      exact .skip (advance_balanced _ _) fun _ => leave_adds ret

theorem onVolume_adds {α : Type} {m : Prog σ α} (balanced : Balanced lock m) (volumename : Name)
    (failed : Int → α) :
    Adds (Vfs.counts lock) (onVolume volumename failed m) fun _ => -opUnit := by
  refine (semaphoreP_adds .vfsTable).bind fun _ => ?_
  apply Adds.skip (.gets _)
  intro fs
  cases fs with
  | none => exact unlocked .vfsTable _
  | some fs => exact .skip (onFs_balanced fs balanced) fun ret => unlocked .vfsTable ret

theorem onPath_balanced {α : Type} {m : Name → Prog σ α}
    (balanced : ∀ name, Balanced lock (m name)) (pathname : Name) (failed : Int → α) :
    Balanced (Vfs.counts lock) (onPath pathname failed m) := by
  refine started ?_
  cases vfsParsePathname pathname with
  | none => exact leave_adds _
  | some names => exact onVolume_adds (balanced names.2) names.1 failed

theorem vfsGetfree_balanced (balanced : ops.Balanced lock) (filesystem : Name) :
    Balanced (Vfs.counts lock) (vfsGetfree ops filesystem) :=
  started (onVolume_adds balanced.getfree filesystem id)

theorem unmountRows_balanced (balanced : Prog.Balanced lock ops.unmount) (rows : List Nat) :
    Balanced (Vfs.counts lock) (unmountRows ops rows) := by
  induction rows with
  | nil => exact .pure rfl
  | cons row rows ih =>
      apply Adds.skip (.gets _)
      intro fs
      cases fs with
      | none => exact ih
      | some fs =>
          refine .skip (onFs_balanced fs balanced) fun _ => ?_
          exact .skip (setFilesystem_balanced _ _) fun _ => ih

theorem vfsDeinit_balanced (balanced : Prog.Balanced lock ops.unmount) :
    Balanced (Vfs.counts lock) (vfsDeinit ops) := by
  have rest : Adds (Vfs.counts lock) (do
      semaphoreP .vfsTable
      semaphoreP .openfileTable
      unmountRows ops (List.range CONFIG_MAX_FILESYSTEMS)
      semaphoreV .openfileTable
      semaphoreV .vfsTable
      semaphoreV .vfsOp) fun _ => VfsSem.unit .vfsOp := by
    refine (semaphoreP_adds .vfsTable).bind fun _ => ?_
    refine (semaphoreP_adds .openfileTable).bind fun _ => ?_
    refine .skip (unmountRows_balanced balanced _) fun _ => ?_
    refine (semaphoreV_adds .openfileTable).bind fun _ => ?_
    refine (semaphoreV_adds .vfsTable).bind fun _ => ?_
    exact (semaphoreV_adds .vfsOp).congr fun _ => by abel
  refine (semaphoreP_adds .vfsOp).bind fun _ => ?_
  refine .skip (.modify fun _ => rfl) fun _ => .skip (.gets _) fun pending => .ite ?_ ?_
  · -- the wait for the last operation adds nothing: its semaphore is not counted
    refine (semaphoreV_adds .vfsOp).bind fun _ => (semaphoreP_adds .vfsUnmount).bind fun _ => ?_
    refine (semaphoreP_adds .vfsOp).bind fun _ => .skip (.assert _ _) fun _ => ?_
    refine rest.congr fun _ => ?_
    simp only [VfsSem.unit]
    abel
  · exact rest.congr fun _ => by abel

/-- Any call that unmounts nothing. -/
theorem prog_balanced (balanced : ops.Balanced lock) {c : VfsCall}
    (mounted : ∀ name, c ≠ .unmount name) (inService : c ≠ .deinit) :
    Balanced (Vfs.counts lock) (c.prog ops) := by
  cases c with
  | mount fs name => exact vfsMount_balanced fs name
  | unmount name => exact absurd rfl (mounted name)
  | openFile pathname => exact vfsOpen_balanced balanced pathname
  | close openfile => exact vfsClose_balanced balanced openfile
  | seek openfile seekPosition => exact vfsSeek_balanced openfile seekPosition
  | read openfile buffer bufsize => exact .map (vfsRead_balanced balanced openfile buffer bufsize)
  | write openfile buffer datasize =>
      exact vfsWrite_balanced balanced openfile buffer datasize
  | create pathname size =>
      exact .skip (.assert _ _) fun _ => onPath_balanced (balanced.create · size) pathname id
  | remove pathname => exact onPath_balanced balanced.remove pathname id
  | getfree filesystem => exact vfsGetfree_balanced balanced filesystem
  | filecount pathname => exact onPath_balanced balanced.filecount pathname id
  | file pathname idx => exact .map (onPath_balanced (balanced.file · idx) pathname _)
  | deinit => exact absurd rfl inService

theorem nothing_balanced (ops : FsOps σ) : ops.Balanced fun _ => 0 := by
  have zero {α : Type} (m : Prog σ α) : Prog.Balanced (fun _ => (0 : Int)) m :=
    fun _ _ _ _ => rfl
  exact ⟨fun _ => zero _, fun _ => zero _, fun _ _ _ => zero _, fun _ _ _ _ => zero _,
    fun _ _ => zero _, fun _ => zero _, zero _, fun _ => zero _, fun _ _ => zero _⟩

/-- Whatever the drivers do, a call gives back the locks and the operation of the VFS. -/
theorem tables_balanced (ops : FsOps σ) (c : VfsCall) :
    Balanced (Vfs.counts fun _ => 0) (c.prog ops) := by
  have zero : Prog.Balanced (fun _ => (0 : Int)) ops.unmount := fun _ _ _ _ => rfl
  cases c with
  | unmount name => exact vfsUnmount_balanced zero name
  | deinit => exact .skip (vfsDeinit_balanced zero) fun _ => .pure rfl
  | mount _ _ | openFile _ | close _ | seek _ _ | read _ _ _ | write _ _ _ | create _ _
  | remove _ | getfree _ | filecount _ | file _ _ =>
      exact prog_balanced (nothing_balanced ops) (fun _ same => by cases same)
        fun same => by cases same

end Calls

/-! ## Which filesystem an unmount touches -/

section Unmount

/-- The mount table and the states of the drivers. -/
def Vfs.volumes (s : Vfs σ) : (Nat → VfsEntry) × (Nat → σ) := (s.filesystems, s.internal)

theorem semaphoreP_volumes (k : VfsSem) (s : Vfs σ) :
    (semaphoreP k).Keeps s fun _ t => t.volumes = s.volumes := by
  intro a t ran
  unfold semaphoreP at ran
  split at ran
  · cases ran
    cases k <;> rfl
  · cases ran

theorem semaphoreV_volumes (k : VfsSem) (s : Vfs σ) :
    (semaphoreV k).Keeps s fun _ t => t.volumes = s.volumes := by
  intro a t ran
  cases ran
  cases k <;> rfl

theorem vfsStartOp_volumes (s : Vfs σ) :
    vfsStartOp.Keeps s fun _ t => t.volumes = s.volumes := by
  refine .bind (semaphoreP_volumes .vfsOp s) fun _ t same => ?_
  intro ret u ran
  rw [Prog.bind_gets_apply, Prog.ite_apply] at ran
  split at ran <;>
  · cases ran
    exact same

theorem leave_volumes {α : Type} (result : α) (s : Vfs σ) :
    (leave result).Keeps s fun ret t => ret = result ∧ t.volumes = s.volumes := by
  refine .bind (Q := fun _ t => t.volumes = s.volumes) ?_ fun _ t same => .pure ⟨rfl, same⟩
  refine .bind (semaphoreP_volumes .vfsOp s) fun _ t same => ?_
  intro a u ran
  rw [Prog.bind_modify_apply, Prog.bind_assert_apply] at ran
  split at ran
  · rw [Prog.bind_gets_apply, Prog.ite_apply] at ran
    split at ran <;>
    · cases ran
      exact same
  · cases ran

theorem unlocked_volumes {α : Type} (k : VfsSem) (result : α) (s : Vfs σ) :
    (do semaphoreV k; leave result : Prog (Vfs σ) α).Keeps s fun ret t =>
      ret = result ∧ t.volumes = s.volumes := by
  refine .bind (semaphoreV_volumes k s) fun _ t same => ?_
  exact (leave_volumes result t).mono fun _ _ left => ⟨left.1, left.2.trans same⟩

theorem bothUnlocked_volumes {α : Type} (result : α) (s : Vfs σ) :
    (do semaphoreV .openfileTable; semaphoreV .vfsTable; leave result : Prog (Vfs σ) α).Keeps s
      fun ret t => ret = result ∧ t.volumes = s.volumes := by
  refine .bind (semaphoreV_volumes .openfileTable s) fun _ t same => ?_
  exact (unlocked_volumes .vfsTable result t).mono fun _ _ left => ⟨left.1, left.2.trans same⟩

/-- An unmount changes the state of the filesystem it unmounts, and of no other. -/
theorem vfsUnmount_internal (ops : FsOps σ) (name : Name) (s : Vfs σ) :
    (vfsUnmount ops name).Keeps s fun ret t => ∀ fs, t.internal fs = s.internal fs ∨
      (ret = VFS_OK ∧ vfsGetFilesystem s name = some fs) := by
  have unchanged {ret result : Int} {t u : Vfs σ} (left : ret = result ∧ t.volumes = u.volumes)
      (same : u.volumes = s.volumes) (fs : Nat) : t.internal fs = s.internal fs ∨
        (ret = VFS_OK ∧ vfsGetFilesystem s name = some fs) :=
    Or.inl (congrFun (congrArg Prod.snd (left.2.trans same)) fs)
  refine .bind (vfsStartOp_volumes s) fun started t first => .ite (.pure ?_) ?_
  · exact fun fs => Or.inl (congrFun (congrArg Prod.snd first) fs)
  refine .bind (semaphoreP_volumes .vfsTable t) fun _ u second => ?_
  have same := second.trans first
  have volume : vfsGetFilesystem u name = vfsGetFilesystem s name := by
    have tables : u.filesystems = s.filesystems := congrArg Prod.fst same
    simp only [vfsGetFilesystem, findMountpoint, tables]
  intro ret v ran
  rw [Prog.bind_gets_apply, Prog.bind_gets_apply, volume] at ran
  cases found : findMountpoint u name with
  | none =>
      rw [found] at ran
      exact unchanged (unlocked_volumes _ _ _ _ _ ran) same
  | some row =>
      rw [found] at ran
      cases mounted : vfsGetFilesystem s name with
      | none =>
          rw [mounted] at ran
          rw [← mounted]
          exact unchanged (unlocked_volumes _ _ _ _ _ ran) same
      | some g =>
          rw [mounted] at ran
          obtain ⟨_, w, locked, ran⟩ := Prog.bind_returned.1 ran
          have same := (semaphoreP_volumes _ _ _ _ locked).trans same
          rw [Prog.bind_gets_apply] at ran
          cases scan : (List.range CONFIG_MAX_OPEN_FILES).find?
              fun i => (w.files i).filesystem = some g with
          | some i =>
              rw [scan] at ran
              rw [← mounted]
              exact unchanged (bothUnlocked_volumes _ _ _ _ ran) same
          | none =>
              rw [scan] at ran
              obtain ⟨_, x, asked, ran⟩ := Prog.bind_returned.1 ran
              obtain ⟨d, -, rfl⟩ := Prog.zoom_returned.1 asked
              rw [Prog.bind_modify_apply] at ran
              obtain ⟨ok, left⟩ := bothUnlocked_volumes _ _ _ _ ran
              intro fs
              by_cases here : fs = g
              · exact Or.inr ⟨ok, by rw [here]⟩
              · left
                have internal := congrFun (congrArg Prod.snd left) fs
                have before := congrFun (congrArg Prod.snd same) fs
                simp only [Vfs.volumes, Vfs.setFilesystem, Vfs.setInternal,
                  Function.update_of_ne here] at internal before
                exact internal.trans before

end Unmount

end Buenos.Fs
