/-
# Fs.Unmounts -- no filesystem is unmounted more often than it was mounted

Any number of threads are inside the VFS, some of them in `vfs_deinit`.  Rows of the mount table
are filled and emptied, and `unmount` is called, under the lock of the mount table only, by
`vfs_mount`, `vfs_unmount` and `vfs_deinit`.

So a call of `unmount` uses up a row that a `vfs_mount` has filled.  What is kept is an account:
the unmounts of a filesystem and the rows that hold it are no more than its mounts, but for the
one row, if any, whose filesystem is being unmounted (`Account.balance`).
-/
import Buenos.Fs.VfsCode
import Mathlib.Data.Finset.Card

namespace Buenos.Fs

open Buenos.Lib Buenos.Theory

set_option autoImplicit false

variable {σ : Type}

/-- How often a filesystem was mounted. -/
def mounts (fs : Nat) (tr : VfsTrace) : Nat :=
  tr.countP fun e => match e.2.2 with
    | .wrote (.mounted _ fs' _) => fs' = fs
    | _ => false

/-- How often the `unmount` of a filesystem was called. -/
def unmounts (fs : Nat) (tr : VfsTrace) : Nat :=
  tr.countP fun e => match e.2.2 with
    | .called (fs', .unmount) => fs' = fs
    | _ => false

namespace Unmounts

/-- The rows that hold a filesystem. -/
def rowsWith (fs : Nat) (s : Vfs σ) : Finset Nat :=
  (Finset.range CONFIG_MAX_FILESYSTEMS).filter fun row => (s.filesystems row).filesystem = some fs

/-- What a thread is about to do with a row; `unmounting` is after the call, before the write. -/
inductive Task where
  | nothing
  | vacant (row : Nat)
  | found (row fs : Nat)
  | unmounting (row fs : Nat)

structure Hold where
  table : Bool
  task : Task

/-- Rows are looked at under the lock of the mount table. -/
def Hold.Knows (h : Hold) (s : Vfs σ) : Prop :=
  match h.task with
  | .nothing => True
  | .vacant row => h.table = true ∧ row < CONFIG_MAX_FILESYSTEMS ∧
      (s.filesystems row).filesystem = none
  | .found row fs | .unmounting row fs => h.table = true ∧ row < CONFIG_MAX_FILESYSTEMS ∧
      (s.filesystems row).filesystem = some fs

structure Account (s : Vfs σ) (tr : VfsTrace) (g : Nat → Hold) : Prop where
  lock : Mutex s.vfsTableSem fun t => (g t).table = true
  knows : ∀ t, (g t).Knows s
  balance : ∀ fs, unmounts fs tr + (rowsWith fs s).card ≤ mounts fs tr ∨
    (∃ t row, (g t).task = .unmounting row fs) ∧
      unmounts fs tr + (rowsWith fs s).card ≤ mounts fs tr + 1

/-- The discipline of the mount table. -/
def accounted : Discipline (Vfs σ) VfsCheck VfsWrite (Nat × DriverCall) Reply VfsCall Hold where
  inv := Account
  idle := ⟨false, .nothing⟩
  must _ := False
  during _ _ _ := True
  allowed _ _ := True

/-! ## Steps -/

section Steps

variable {s s' : Vfs σ} {tr tr' : VfsTrace} {g : Nat → Hold} {t row fs : Nat} {h' : Hold}

theorem mem_rowsWith {fs row : Nat} : row ∈ rowsWith fs s ↔
    row < CONFIG_MAX_FILESYSTEMS ∧ (s.filesystems row).filesystem = some fs := by
  rw [rowsWith, Finset.mem_filter, Finset.mem_range]

theorem rowsWith_congr (same : s'.filesystems = s.filesystems) (fs : Nat) :
    rowsWith fs s' = rowsWith fs s := by
  rw [rowsWith, rowsWith, same]

/-- One row that is filled or emptied is one row more or less. -/
theorem rowsWith_insert (inside : row < CONFIG_MAX_FILESYSTEMS)
    (before : (s.filesystems row).filesystem ≠ some fs)
    (now : (s'.filesystems row).filesystem = some fs)
    (same : ∀ r, r ≠ row → s'.filesystems r = s.filesystems r) :
    (rowsWith fs s').card = (rowsWith fs s).card + 1 := by
  have rows : rowsWith fs s' = insert row (rowsWith fs s) := by
    ext r
    rw [Finset.mem_insert, mem_rowsWith, mem_rowsWith]
    by_cases here : r = row
    · subst here
      exact iff_of_true ⟨inside, now⟩ (.inl rfl)
    · rw [same r here, or_iff_right here]
  rw [rows, Finset.card_insert_of_notMem fun mem => before (mem_rowsWith.1 mem).2]

theorem rowsWith_other (before : (s.filesystems row).filesystem ≠ some fs)
    (now : (s'.filesystems row).filesystem ≠ some fs)
    (same : ∀ r, r ≠ row → s'.filesystems r = s.filesystems r) :
    rowsWith fs s' = rowsWith fs s := by
  ext r
  rw [mem_rowsWith, mem_rowsWith]
  by_cases here : r = row
  · subst here
    exact iff_of_false (fun mem => now mem.2) fun mem => before mem.2
  · rw [same r here]

/-- Without the lock of the mount table a thread relies on nothing. -/
theorem Hold.Knows.nothing {h : Hold} (knows : h.Knows s) (free : h.table ≠ true) :
    h.task = .nothing := by
  obtain ⟨table, task⟩ := h
  cases task with
  | nothing => rfl
  | _ => exact absurd knows.1 free

theorem Hold.Knows.congr {h : Hold} (knows : h.Knows s) (same : s'.filesystems = s.filesystems) :
    h.Knows s' := by
  obtain ⟨table, task⟩ := h
  cases task <;> simp only [Hold.Knows, same] at knows ⊢ <;> exact knows

/-- The holder of the lock is the only one that can be unmounting. -/
theorem Account.settled (account : Account s tr g) (held : (g t).table = true)
    (task : ∀ row, (g t).task ≠ .unmounting row fs) :
    unmounts fs tr + (rowsWith fs s).card ≤ mounts fs tr := by
  rcases account.balance fs with settled | ⟨⟨t', row, unmounting⟩, -⟩
  · exact settled
  · have knows := account.knows t'
    rw [Hold.Knows, unmounting] at knows
    cases account.lock.unique (fun h : Hold => h.table = true) held knows.1
    exact absurd unmounting (task row)

/-- A step of the thread that holds the lock. -/
theorem Account.step (account : Account s tr g) (held : (g t).table = true)
    (still : h'.table = true) (sem : s'.vfsTableSem = s.vfsTableSem) (knows : h'.Knows s')
    (balance : ∀ fs, unmounts fs tr' + (rowsWith fs s').card ≤ mounts fs tr' ∨
      (∃ row, h'.task = .unmounting row fs) ∧
        unmounts fs tr' + (rowsWith fs s').card ≤ mounts fs tr' + 1) :
    Account s' tr' (Function.update g t h') where
  lock := by
    rw [sem]
    exact account.lock.keep (fun h : Hold => h.table = true) (iff_of_true still held)
  knows t' := by
    by_cases here : t' = t
    · subst here
      rwa [Function.update_self]
    · rw [Function.update_of_ne here, Hold.Knows, (account.knows t').nothing fun other =>
        here (account.lock.unique (fun h : Hold => h.table = true) held other)]
      trivial
  balance fs := (balance fs).imp_right fun ⟨⟨row, task⟩, most⟩ =>
    ⟨⟨t, row, by rw [Function.update_self]; exact task⟩, most⟩

/-- A step that neither fills nor empties a row, nor calls `unmount`. -/
theorem Account.same (account : Account s tr g)
    (lock : Mutex s'.vfsTableSem fun t' => (Function.update g t h' t').table = true)
    (rows : s'.filesystems = s.filesystems) (knows : h'.Knows s)
    (task : ∀ row fs, (g t).task = .unmounting row fs → h'.task = .unmounting row fs)
    (mounted : ∀ fs, mounts fs tr' = mounts fs tr)
    (unmounted : ∀ fs, unmounts fs tr' = unmounts fs tr) :
    Account s' tr' (Function.update g t h') where
  lock := lock
  knows t' := by
    by_cases here : t' = t
    · subst here
      rw [Function.update_self]
      exact knows.congr rows
    · rw [Function.update_of_ne here]
      exact (account.knows t').congr rows
  balance fs := by
    rw [mounted, unmounted, rowsWith_congr rows]
    refine (account.balance fs).imp_right fun ⟨⟨t', row, unmounting⟩, most⟩ => ⟨⟨t', row, ?_⟩, most⟩
    by_cases here : t' = t
    · subst here
      rw [Function.update_self]
      exact task row fs unmounting
    · rwa [Function.update_of_ne here]

/-- The event is neither a mount nor an unmount. -/
def Quiet : Option (Event VfsWrite (Nat × DriverCall) Reply) → Prop
  | some (.wrote (.mounted ..)) => False
  | some (.called (_, .unmount)) => False
  | _ => True

theorem mounts_quiet {e : Option (Event VfsWrite (Nat × DriverCall) Reply)} (quiet : Quiet e)
    (t : Nat) (o : VfsCall) (fs : Nat) : mounts fs (record t o e tr) = mounts fs tr := by
  cases e with
  | none => rfl
  | some e =>
      refine List.countP_cons_of_neg ?_
      cases e with
      | wrote w => cases w <;> first | exact quiet.elim | exact Bool.false_ne_true
      | _ => exact Bool.false_ne_true

theorem unmounts_quiet {e : Option (Event VfsWrite (Nat × DriverCall) Reply)} (quiet : Quiet e)
    (t : Nat) (o : VfsCall) (fs : Nat) : unmounts fs (record t o e tr) = unmounts fs tr := by
  cases e with
  | none => rfl
  | some e =>
      refine List.countP_cons_of_neg ?_
      cases e with
      | called r =>
          obtain ⟨fs', c⟩ := r
          cases c <;> first | exact quiet.elim | exact Bool.false_ne_true
      | _ => exact Bool.false_ne_true

variable (o : VfsCall)

/-- A step that the mount table does not show. -/
theorem moves_quiet (h : Hold) {pre : Vfs σ → Prop} {f : Vfs σ → Vfs σ}
    {e : Option (Event VfsWrite (Nat × DriverCall) Reply)}
    (sem : ∀ s, (f s).vfsTableSem = s.vfsTableSem)
    (rows : ∀ s, (f s).filesystems = s.filesystems) (quiet : Quiet e) :
    accounted.Moves o h h pre f e := by
  rintro s tr g t account rfl -
  refine account.same ?_ (rows s) (account.knows t) (fun _ _ => id) (mounts_quiet quiet t o)
    (unmounts_quiet quiet t o)
  rw [Function.update_eq_self, sem]
  exact account.lock

/-- `semaphore_P(vfs_table.sem)`. -/
theorem moves_take : accounted.Moves o ⟨false, .nothing⟩ ⟨true, .nothing⟩
    (fun s : Vfs σ => 0 < s.sem .vfsTable) (fun s => s.addSem .vfsTable (-1)) none := by
  intro s tr g t account here positive
  have taken := account.lock.take (fun h : Hold => h.table = true) positive t
    (show Hold.table ⟨true, .nothing⟩ = true from rfl)
  refine account.same taken rfl trivial (fun row fs unmounting => ?_) (fun _ => rfl) fun _ => rfl
  rw [here] at unmounting
  cases unmounting

/-- `semaphore_V(vfs_table.sem)`, by a thread that is not unmounting. -/
theorem moves_give {task : Task} (rest : ∀ row fs, task ≠ .unmounting row fs) :
    accounted.Moves o ⟨true, task⟩ ⟨false, .nothing⟩
      (fun _ : Vfs σ => True) (fun s => s.addSem .vfsTable 1) none := by
  rintro s tr g t account here -
  have given := account.lock.give (fun h : Hold => h.table = true) (by rw [here])
    (show ¬Hold.table ⟨false, .nothing⟩ = true from Bool.false_ne_true)
  refine account.same given rfl trivial (fun row fs unmounting => ?_) (fun _ => rfl) fun _ => rfl
  rw [here] at unmounting
  exact absurd unmounting (rest row fs)

/-- A thread that holds the lock has looked at a row. -/
theorem Account.learn (account : Account s tr g) (here : g t = ⟨true, .nothing⟩) (task : Task)
    (knows : Hold.Knows ⟨true, task⟩ s) : Account s tr (Function.update g t ⟨true, task⟩) := by
  have lock : Mutex s.vfsTableSem fun t' => (Function.update g t ⟨true, task⟩ t').table = true :=
    account.lock.keep (fun h : Hold => h.table = true) (by rw [here])
  refine account.same lock rfl knows (fun row fs unmounting => ?_) (fun _ => rfl) fun _ => rfl
  rw [here] at unmounting
  cases unmounting

/-- A row is filled. -/
theorem moves_mounted (row fs : Nat) (name : Name) :
    accounted.Moves o ⟨true, .vacant row⟩ ⟨true, .nothing⟩ (fun _ : Vfs σ => True)
      (VfsWrite.mounted row fs name).apply (some (.wrote (.mounted row fs name))) := by
  rintro s tr g t account here -
  have vacant := account.knows t
  rw [here] at vacant
  obtain ⟨-, inside, free⟩ := vacant
  refine account.step (by rw [here]) rfl rfl trivial fun fs' => .inl ?_
  have before : unmounts fs' tr + (rowsWith fs' s).card ≤ mounts fs' tr :=
    account.settled (t := t) (by rw [here]) (by rw [here]; nofun)
  have others : ∀ r, r ≠ row → (VfsWrite.apply (.mounted row fs name) s).filesystems r =
      s.filesystems r := fun r other => Function.update_of_ne other ..
  have filled :
      ((VfsWrite.apply (.mounted row fs name) s).filesystems row).filesystem = some fs := by
    simp [VfsWrite.apply, Vfs.setFilesystem]
  by_cases same : fs = fs'
  · subst same
    rw [rowsWith_insert inside (by rw [free]; nofun) filled others]
    simpa [record, mounts, unmounts, ← Nat.add_assoc] using before
  · rw [rowsWith_other (by rw [free]; nofun)
      (by rw [filled]; exact fun equal => same (Option.some.inj equal)) others]
    simpa [record, mounts, unmounts, same] using before

/-- `unmount` is called for the filesystem of a row. -/
theorem moves_called (row fs : Nat) :
    accounted.Moves o ⟨true, .found row fs⟩ ⟨true, .unmounting row fs⟩ (fun _ : Vfs σ => True) id
      (some (.called (fs, .unmount))) := by
  rintro s tr g t account here -
  have found := account.knows t
  rw [here] at found
  refine account.step (by rw [here]) rfl rfl found fun fs' => ?_
  have before : unmounts fs' tr + (rowsWith fs' s).card ≤ mounts fs' tr :=
    account.settled (t := t) (by rw [here]) (by rw [here]; nofun)
  by_cases same : fs = fs'
  · subst same
    refine .inr ⟨⟨row, rfl⟩, ?_⟩
    simp only [record, unmounts, mounts, List.countP_cons, id] at before ⊢
    simp only [decide_true, if_true, Bool.false_eq_true, if_false]
    omega
  · refine .inl ?_
    simpa [record, mounts, unmounts, same] using before

/-- The row is emptied after the call. -/
theorem moves_unmounted (row fs : Nat) :
    accounted.Moves o ⟨true, .unmounting row fs⟩ ⟨true, .nothing⟩ (fun _ : Vfs σ => True)
      (VfsWrite.unmounted row).apply (some (.wrote (.unmounted row))) := by
  rintro s tr g t account here -
  have found := account.knows t
  rw [here] at found
  obtain ⟨-, inside, holds⟩ := found
  refine account.step (by rw [here]) rfl rfl trivial fun fs' => .inl ?_
  have others : ∀ r, r ≠ row → s.filesystems r =
      (VfsWrite.apply (.unmounted row) s).filesystems r := fun r other =>
    (Function.update_of_ne other ..).symm
  have emptied : ((VfsWrite.apply (.unmounted row) s).filesystems row).filesystem = none := by
    simp [VfsWrite.apply, Vfs.setFilesystem]
  have quiet : Quiet (some (.wrote (.unmounted row))) := trivial
  rw [mounts_quiet quiet, unmounts_quiet quiet]
  by_cases same : fs = fs'
  · subst same
    have less := rowsWith_insert inside (by rw [emptied]; nofun) holds others
    rcases account.balance fs with before | ⟨-, before⟩ <;> omega
  · rw [← rowsWith_other (by rw [emptied]; nofun)
      (by rw [holds]; exact fun equal => same (Option.some.inj equal)) others]
    refine account.settled (t := t) (by rw [here]) ?_
    rw [here]
    rintro r ⟨⟩
    exact same rfl

end Steps

/-! ## The code -/

section Code

variable {o : VfsCall} {α : Type} {Q : α → Hold → Prop} {h : Hold}

/-- The code keeps the account, from the ghost `h`. -/
abbrev Keeps (o : VfsCall) (Q : α → Hold → Prop) (c : VfsCode σ α) (h : Hold) : Prop :=
  c.Safe vfsShared accounted o Q h

/-- The thread holds no lock of the mount table. -/
def outside : Hold := ⟨false, .nothing⟩

/-- The thread holds the lock of the mount table. -/
def locked : Hold := ⟨true, .nothing⟩

theorem table_addSem {k : VfsSem} (other : k ≠ .vfsTable) (s : Vfs σ) (d : Int) :
    (s.addSem k d).vfsTableSem = s.vfsTableSem := by
  cases k <;> first | contradiction | rfl

theorem filesystems_addSem (k : VfsSem) (s : Vfs σ) (d : Int) :
    (s.addSem k d).filesystems = s.filesystems := by
  cases k <;> rfl

theorem keeps_semP {k : VfsSem} (other : k ≠ .vfsTable) {c : Unit → VfsCode σ α}
    (rest : Keeps o Q (c ()) h) : Keeps o Q (Code.semP k >>= c) h :=
  Code.Safe.semP (moves_quiet o h (fun s => table_addSem other s _)
    (fun s => filesystems_addSem k s _) trivial) rest

theorem keeps_semV {k : VfsSem} (other : k ≠ .vfsTable) {c : Unit → VfsCode σ α}
    (rest : Keeps o Q (c ()) h) : Keeps o Q (Code.semV k >>= c) h :=
  Code.Safe.semV (moves_quiet o h (fun s => table_addSem other s _)
    (fun s => filesystems_addSem k s _) trivial) rest

theorem keeps_take {c : Unit → VfsCode σ α} (rest : Keeps o Q (c ()) locked) :
    Keeps o Q (Code.semP .vfsTable >>= c) outside :=
  Code.Safe.semP (moves_take o) rest

theorem keeps_give {c : VfsCode σ α} (rest : Keeps o Q c outside) {task : Task}
    (idle : ∀ row fs, task ≠ .unmounting row fs) :
    Keeps o Q (do Code.semV .vfsTable; c) ⟨true, task⟩ :=
  Code.Safe.semV (moves_give o idle) rest

/-- A write to other variables than the mount table. -/
def Elsewhere : VfsWrite → Prop
  | .mounted .. | .unmounted _ => False
  | _ => True

theorem keeps_set {w : VfsWrite} (elsewhere : Elsewhere w) {c : Unit → VfsCode σ α}
    (rest : Keeps o Q (c ()) h) : Keeps o Q (Code.set w >>= c) h := by
  refine Code.Safe.set (moves_quiet o h ?_ ?_ ?_) rest <;> cases w <;>
    first | exact elsewhere.elim | exact fun _ => rfl | trivial

theorem keeps_assert {l : VfsCheck} {c : Unit → VfsCode σ α} (rest : Keeps o Q (c ()) h) :
    Keeps o Q (Code.assert l >>= c) h :=
  Code.Safe.assert False.elim (moves_quiet o h (fun _ => rfl) (fun _ => rfl) trivial) rest

/-- A driver function other than `unmount`. -/
theorem keeps_driver {fs : Nat} {request : DriverCall} (other : request ≠ .unmount)
    {c : Int → VfsCode σ α} (rest : ∀ ret, Keeps o Q (c ret) h) :
    Keeps o Q (VfsCode.driver fs request >>= c) h := by
  refine safe_driver (r := (fs, request)) trivial
    (moves_quiet o h (fun _ => rfl) (fun _ => rfl) ?_)
    (fun _ => moves_quiet o h (fun _ => rfl) (fun _ => rfl) trivial) rest
  cases request <;> first | contradiction | trivial

/-- The call of `unmount` for a row, and the write that empties it. -/
theorem keeps_unmounting {row fs : Nat} {c : VfsCode σ α} (rest : Keeps o Q c locked) :
    Keeps o Q (do
      let _ ← VfsCode.driver fs .unmount
      Code.set (.unmounted row)
      c) ⟨true, .found row fs⟩ :=
  safe_driver (r := (fs, .unmount)) trivial (moves_called o row fs)
    (fun _ => moves_quiet o _ (fun _ => rfl) (fun _ => rfl) trivial)
    fun _ => Code.Safe.set (moves_unmounted o row fs) rest

/-- An operation that is refused, or starts and runs its body. -/
theorem keeps_operation {Q : Int → Hold → Prop} {c : VfsCode σ Int}
    (refused : Q VFS_UNUSABLE h) (body : Keeps o Q c h) :
    Keeps o Q (do
      let started ← VfsCode.vfsStartOp
      if started ≠ VFS_OK then pure VFS_UNUSABLE else c) h := by
  refine Code.Safe.bind (Q := fun _ h' => h' = h) ?_ ?_
  · refine keeps_semP (by simp) (Code.Safe.gets_same fun s => ?_)
    refine Code.Safe.ite (fun _ => ?_) fun _ => ?_
    · exact keeps_set (by trivial) (keeps_semV (by simp) rfl)
    · exact keeps_semV (by simp) rfl
  · rintro started h' rfl
    exact Code.Safe.ite (fun _ => refused) fun _ => body

theorem keeps_leave {a : α} (done : Q a h) : Keeps o Q (VfsCode.leave a : VfsCode σ α) h := by
  refine Code.Safe.bind (Q := fun _ h' => h' = h) ?_ ?_
  · refine keeps_semP (by simp) (keeps_set (by trivial) (keeps_assert ?_))
    refine Code.Safe.gets_same fun s => ?_
    refine Code.Safe.ite (fun _ => ?_) fun _ => ?_
    · exact keeps_semV (by simp) (keeps_semV (c := pure) (by simp) rfl)
    · exact keeps_semV (c := pure) (by simp) rfl
  · rintro _ h' rfl
    exact done

end Code

/-! ## The entry points -/

section Entries

variable {o : VfsCall}

/-- A thread with ghost `h` may return `a`. -/
abbrev Done (σ : Type) (o : VfsCall) (a : Int) (h : Hold) : Prop :=
  Discipline.Leaves (accounted : Discipline (Vfs σ) VfsCheck VfsWrite (Nat × DriverCall) Reply
    VfsCall Hold) o a h

/-- The rest of an entry point keeps the account until it returns. -/
abbrev Whole (σ : Type) (o : VfsCall) (c : VfsCode σ Int) (h : Hold) : Prop :=
  Keeps o (Done σ o) c h

theorem leaves (o : VfsCall) (a : Int) : Done σ o a outside :=
  moves_quiet o outside (fun _ => rfl) (fun _ => rfl) trivial

/-- Give the mount table back and leave. -/
theorem keeps_release (a : Int) {task : Task} (idle : ∀ row fs, task ≠ .unmounting row fs) :
    Whole σ o (do Code.semV .vfsTable; VfsCode.leave a) ⟨true, task⟩ :=
  keeps_give (keeps_leave (leaves o a)) idle

/-- Give both tables back and leave. -/
theorem keeps_releaseBoth (a : Int) {task : Task} (idle : ∀ row fs, task ≠ .unmounting row fs) :
    Whole σ o (do Code.semV .openfileTable; Code.semV .vfsTable; VfsCode.leave a) ⟨true, task⟩ :=
  keeps_semV (by simp) (keeps_release a idle)

theorem keeps_mount (fs : Nat) (name : Name) : Whole σ o (VfsCode.vfsMount fs name) outside := by
  refine keeps_assert (keeps_operation (leaves o _) (keeps_take ?_))
  refine Code.Safe.gets fun s tr g t account here => ?_
  cases free : freeMount s with
  | none => exact ⟨_, account.learn here .nothing trivial, keeps_release _ (by simp)⟩
  | some row =>
      obtain ⟨inside, vacant⟩ := freeMount_some free
      refine ⟨_, account.learn here (.vacant row) ⟨rfl, inside, vacant⟩, ?_⟩
      refine Code.Safe.gets_same fun s => ?_
      cases findMountpoint s name with
      | some _ => exact keeps_release _ (by simp)
      | none => exact Code.Safe.set (moves_mounted o row fs _) (keeps_release _ (by simp))

theorem keeps_unmount (name : Name) : Whole σ o (VfsCode.vfsUnmount name) outside := by
  refine keeps_operation (leaves o _) (keeps_take ?_)
  refine Code.Safe.gets fun s tr g t account here => ?_
  split
  · exact ⟨_, account.learn here .nothing trivial, keeps_release _ (by simp)⟩
  · rename_i row fs found
    obtain ⟨row', known, holds⟩ := Option.bind_eq_some_iff.1 found
    obtain ⟨fs', held, same⟩ := Option.map_eq_some_iff.1 holds
    cases same
    have inside := List.mem_range.1 (List.mem_of_find?_eq_some known)
    refine ⟨_, account.learn here (.found row fs) ⟨rfl, inside, held⟩, ?_⟩
    refine keeps_semP (by simp) (Code.Safe.gets_same fun s => ?_)
    split
    · exact keeps_releaseBoth _ (by simp)
    · exact keeps_unmounting (keeps_releaseBoth _ (by simp))

theorem keeps_open (pathname : Name) : Whole σ o (VfsCode.vfsOpen pathname) outside := by
  refine keeps_operation (leaves o _) ?_
  split
  · exact keeps_leave (leaves o _)
  · refine keeps_take (keeps_semP (by simp) (Code.Safe.gets_same fun s => ?_))
    split
    · exact keeps_releaseBoth _ (by simp)
    · refine Code.Safe.gets_same fun s => ?_
      split
      · exact keeps_releaseBoth _ (by simp)
      · refine keeps_set (by trivial) (keeps_semV (by simp) (keeps_give ?_ (by simp)))
        refine keeps_driver (by simp) fun fileid => Code.Safe.ite (fun _ => ?_) (fun _ => ?_)
        · refine keeps_semP (by simp) (keeps_set (by trivial) ?_)
          exact keeps_semV (by simp) (keeps_leave (leaves o _))
        · exact keeps_set (by trivial) (keeps_leave (leaves o _))

theorem keeps_close (file : Int) : Whole σ o (VfsCode.vfsClose file) outside := by
  refine keeps_operation (leaves o _) (keeps_semP (by simp) ?_)
  refine safe_verifyOpen (keeps_assert (Code.Safe.gets_same fun s => ?_))
  split
  · exact safe_crash not_false (leaves o _)
  · refine keeps_driver (by simp) fun ret => keeps_set (by trivial) ?_
    exact keeps_semV (by simp) (keeps_leave (leaves o _))

theorem keeps_seek (file seekPosition : Int) :
    Whole σ o (VfsCode.vfsSeek file seekPosition) outside := by
  refine keeps_operation (leaves o _) (keeps_assert (keeps_semP (by simp) ?_))
  refine safe_verifyOpen (keeps_assert (keeps_set (by trivial) ?_))
  exact keeps_semV (by simp) (keeps_leave (leaves o _))

/-- A transfer: the driver call, then the seek position. -/
theorem keeps_transfer (fs row : Nat) {request : DriverCall} (other : request ≠ .unmount) :
    Whole σ o (do
      let ret ← VfsCode.driver fs request
      VfsCode.advance row ret
      VfsCode.leave ret) outside := by
  refine keeps_driver other fun ret => Code.Safe.bind (Q := fun _ h' => h' = outside) ?_ ?_
  · refine Code.Safe.ite (fun _ => keeps_semP (by simp) (keeps_set (by trivial) ?_)) fun _ => rfl
    exact keeps_semV (c := pure) (by simp) rfl
  · rintro _ h' rfl
    exact keeps_leave (leaves o _)

theorem keeps_read (file : Int) (buffer : Bool) (bufsize : Int) :
    Whole σ o (VfsCode.vfsRead file buffer bufsize) outside := by
  refine keeps_operation (leaves o _) (safe_verifyOpen (keeps_assert (Code.Safe.gets_same fun s => ?_)))
  refine keeps_assert ?_
  split
  · exact safe_crash not_false (leaves o _)
  · exact keeps_transfer _ _ (by simp)

theorem keeps_write (file : Int) (buffer : Option (List Byte)) (datasize : Int) :
    Whole σ o (VfsCode.vfsWrite file buffer datasize) outside := by
  refine keeps_operation (leaves o _) (safe_verifyOpen (keeps_assert (Code.Safe.gets_same fun s => ?_)))
  refine keeps_assert ?_
  split
  · exact keeps_transfer _ _ (by simp)
  · exact safe_crash not_false (leaves o _)

theorem keeps_onVolume (volumename : Name) {request : DriverCall} (other : request ≠ .unmount) :
    Whole σ o (VfsCode.onVolume volumename request) outside := by
  refine keeps_take (Code.Safe.gets_same fun s => ?_)
  split
  · exact keeps_release _ (by simp)
  · exact keeps_driver other fun ret => keeps_release ret (by simp)

theorem keeps_onPath (pathname : Name) {request : Name → DriverCall}
    (other : ∀ filename, request filename ≠ .unmount) :
    Whole σ o (VfsCode.onPath pathname request) outside := by
  refine keeps_operation (leaves o _) ?_
  split
  · exact keeps_leave (leaves o _)
  · exact keeps_onVolume _ (other _)

/-- `vfs_deinit` empties the table row by row, under its lock. -/
theorem keeps_unmountRows {rows : List Nat} (inside : ∀ row ∈ rows, row < CONFIG_MAX_FILESYSTEMS) :
    Keeps o (fun _ h' => h' = locked) (VfsCode.unmountRows rows : VfsCode σ Unit) locked := by
  induction rows with
  | nil => rfl
  | cons row rows ih =>
      have rest := ih fun r mem => inside r (List.mem_cons_of_mem _ mem)
      rw [VfsCode.unmountRows]
      refine Code.Safe.gets fun s tr g t account here => ?_
      split
      · exact ⟨_, account.learn here .nothing trivial, rest⟩
      · rename_i fs holds
        exact ⟨_, account.learn here (.found row fs)
          ⟨rfl, inside row List.mem_cons_self, holds⟩, keeps_unmounting rest⟩

theorem keeps_deinit : Whole σ o (VfsCall.deinit.code) outside := by
  have sweep : Keeps o (fun _ h' => h' = outside) (do
      Code.semP .vfsTable
      Code.semP .openfileTable
      VfsCode.unmountRows (List.range CONFIG_MAX_FILESYSTEMS)
      Code.semV .openfileTable
      Code.semV .vfsTable
      Code.semV .vfsOp : VfsCode σ Unit) outside := by
    refine keeps_take (keeps_semP (by simp) ?_)
    refine Code.Safe.bind (keeps_unmountRows fun row mem => List.mem_range.1 mem) ?_
    rintro _ h' rfl
    have last : Keeps o (fun _ h' => h' = outside) (Code.semV .vfsOp : VfsCode σ Unit) outside :=
      keeps_semV (c := pure) (by simp) rfl
    exact keeps_semV (by simp) (keeps_give last (by simp))
  refine Code.Safe.bind (Q := fun _ h' => h' = outside) ?_ ?_
  · refine keeps_semP (by simp) (keeps_set (by trivial) (Code.Safe.gets_same fun s => ?_))
    cases decide (0 < s.vfsOps) with
    | true =>
        refine keeps_semV (by simp) (keeps_semP (by simp) (keeps_semP (by simp) ?_))
        exact keeps_assert sweep
    | false => exact sweep
  · rintro _ h' rfl
    exact leaves o 0

theorem keeps_code (o : VfsCall) : Whole σ o o.code outside := by
  cases o with
  | mount fs name => exact keeps_mount fs name
  | unmount name => exact keeps_unmount name
  | openFile pathname => exact keeps_open pathname
  | close openfile => exact keeps_close openfile
  | seek openfile seekPosition => exact keeps_seek openfile seekPosition
  | read openfile buffer bufsize => exact keeps_read openfile buffer bufsize
  | write openfile buffer datasize => exact keeps_write openfile buffer datasize
  | create pathname size => exact keeps_assert (keeps_onPath pathname (by simp))
  | remove pathname => exact keeps_onPath pathname (by simp)
  | getfree filesystem =>
      exact keeps_operation (leaves _ _) (keeps_onVolume filesystem (by simp))
  | filecount pathname => exact keeps_onPath pathname (by simp)
  | file pathname idx => exact keeps_onPath pathname (by simp)
  | deinit => exact keeps_deinit

end Entries

theorem account_start (internal : Nat → σ) : Account (vfsInit internal) [] fun _ => outside where
  lock := .inl ⟨rfl, fun _ => Bool.false_ne_true⟩
  knows _ := trivial
  balance fs := by
    have empty : rowsWith fs (vfsInit internal) = ∅ := Finset.filter_false_of_mem fun _ _ => nofun
    exact .inl (by rw [empty]; exact Nat.le_refl 0)

theorem entry : accounted.Entry vfsShared (VfsCall.code (σ := σ)) := by
  rintro o -
  refine ⟨outside, ?_, keeps_code o⟩
  intro s tr g t account idle _
  have entered : accounted.Moves o outside outside (fun _ : Vfs σ => True) id (some .entered) :=
    moves_quiet o outside (fun _ => rfl) (fun _ => rfl) trivial
  exact entered s tr g t account idle trivial

end Unmounts

/-- **No filesystem is unmounted more often than it was mounted**, in every run of any number of
threads in the VFS, whoever unmounts it. -/
theorem unmounts_le_mounts {internal : Nat → σ} {s : VfsPool σ}
    (reached : (vfsPool internal).Reachable s) (fs : Nat) :
    unmounts fs s.trace ≤ mounts fs s.trace := by
  have explained : ∃ g, Unmounts.accounted.Explains vfsShared g s :=
    Discipline.explains_reachable (Unmounts.account_start internal) Unmounts.entry
      (reached.mono fun _ m _ => by cases m <;> trivial)
  obtain ⟨g, holds⟩ := explained
  have account : Unmounts.Account s.shared s.trace g := holds.inv
  rcases account.balance fs with settled | ⟨⟨t, row, unmounting⟩, most⟩
  · exact Nat.le_of_add_right_le settled
  · -- the row whose filesystem is being unmounted is still there
    have knows := account.knows t
    rw [Unmounts.Hold.Knows, unmounting] at knows
    have present := Finset.card_pos.2 ⟨row, Unmounts.mem_rowsWith.2 knows.2⟩
    omega

end Buenos.Fs
