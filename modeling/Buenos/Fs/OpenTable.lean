/-
# Fs.OpenTable -- the mount table and the open-file table agree

Threads mount, unmount, open and close, in any order, before `vfs_deinit`.  `vfs_open`
reserves a row under both table locks, calls the driver with neither, and gives the row
back if the driver fails; `vfs_unmount` looks for rows that use the filesystem and unmounts
it under both locks.

Every row has one owner at a time (`Owner`): nobody, the open that reserved it, its handle,
or the close of that handle.  What a thread has read of the tables stays true while it holds
the locks it read them under (`Hold.Knows`), and that is enough for its next write.
-/
import Buenos.Fs.VfsCode
import Buenos.Theory.Exclusive

namespace Buenos.Fs

open Buenos.Lib Buenos.Theory

set_option autoImplicit false

variable {σ : Type}

/-- The handle was returned by `vfs_open`, and no close of it has begun since. -/
def handleOpen (f : Int) : VfsTrace → Bool
  | [] => false
  | (_, .openFile _, .returned v) :: tr => (0 ≤ v && v == f) || handleOpen f tr
  | (_, .close f', .entered) :: tr => f' != f && handleOpen f tr
  | _ :: tr => handleOpen f tr

/-- An open in progress, known by its thread, or a completed one, known by its handle. -/
inductive RowHolder where
  | opening (t : Nat)
  | handle
  deriving DecidableEq

/-- The opens that hold a row: each from its reservation until its own rollback or the close
of its handle. -/
def holders (row : Nat) : VfsTrace → List RowHolder
  | [] => []
  | (t, .openFile _, .wrote (.reserved r _)) :: tr =>
      if r = row then .opening t :: holders row tr else holders row tr
  | (t, .openFile _, .wrote (.released r)) :: tr =>
      if r = row then (holders row tr).erase (.opening t) else holders row tr
  | (t, .openFile _, .returned v) :: tr =>
      if v = row then .handle :: (holders row tr).erase (.opening t) else holders row tr
  | (_, .close _, .wrote (.released r)) :: tr =>
      if r = row then (holders row tr).erase .handle else holders row tr
  | _ :: tr => holders row tr

/-- The filesystem is in the mount table. -/
def Mounted (fs : Nat) (s : Vfs σ) : Prop :=
  ∃ row < CONFIG_MAX_FILESYSTEMS, (s.filesystems row).filesystem = some fs

/-- Callers mount, unmount, open, and close what they have open. -/
def Callable (tr : VfsTrace) : VfsCall → Prop
  | .mount _ _ => True
  | .unmount _ => True
  | .openFile _ => True
  | .close f => handleOpen f tr = true
  | _ => False

/-- Calls begin where callers may make them; other moves are free. -/
def CallersMove (s : VfsPool σ) : Move VfsCall Reply → Prop
  | .enter _ o => Callable s.trace o
  | _ => True

namespace OpenTable

/-- What a thread has found out or taken. -/
inductive Phase where
  | nothing
  | freeRow (row : Nat)
  | mountable (row fs : Nat)
  | opening (row : Nat)
  | closing (row : Nat)
  | vacant (row : Nat)
  | found (row fs : Nat)
  | clear (row fs : Nat)
  deriving DecidableEq

structure Hold where
  table : Bool
  files : Bool
  phase : Phase

/-- The two table locks are free, and `phase`. -/
def unlocked (phase : Phase) : Hold := ⟨false, false, phase⟩

/-- What was read under a lock holds while the lock is held. -/
def Hold.Knows (h : Hold) (s : Vfs σ) : Prop :=
  match h.phase with
  | .freeRow row => h.table = true ∧ h.files = true ∧
      row < CONFIG_MAX_OPEN_FILES ∧ (s.files row).filesystem = none
  | .mountable row fs => h.table = true ∧ h.files = true ∧
      row < CONFIG_MAX_OPEN_FILES ∧ (s.files row).filesystem = none ∧ Mounted fs s
  | .vacant row => h.table = true ∧ (s.filesystems row).filesystem = none
  | .found row fs => h.table = true ∧ (s.filesystems row).filesystem = some fs
  | .clear row fs => h.table = true ∧ h.files = true ∧
      (s.filesystems row).filesystem = some fs ∧ ∀ i, (s.files i).filesystem ≠ some fs
  | _ => True

inductive Owner where
  | nobody
  | opener (t : Nat)
  | handle
  | closer (t : Nat)
  deriving DecidableEq

def Owns (s : Vfs σ) (tr : VfsTrace) (g : Nat → Hold) : Owner → Nat → Prop
  | .nobody, row => (s.files row).filesystem = none
  | .opener t, row => (g t).phase = .opening row
  | .handle, row => handleOpen row tr = true
  | .closer t, row => (g t).phase = .closing row

/-- The opens that hold a row with this owner. -/
def Owner.holders : Owner → List RowHolder
  | .nobody => []
  | .opener t => [.opening t]
  | .handle => [.handle]
  | .closer _ => [.handle]

structure Agree (s : Vfs σ) (tr : VfsTrace) (g : Nat → Hold) : Prop where
  table : Mutex s.vfsTableSem fun t => (g t).table = true
  files : Mutex s.openfileTableSem fun t => (g t).files = true
  usable : s.vfsUsable = true
  knows : ∀ t, (g t).Knows s
  used : ∀ i fs, (s.files i).filesystem = some fs → i < CONFIG_MAX_OPEN_FILES ∧ Mounted fs s
  owners : Exclusive (Owns s tr g)
  held : ∀ owner row, Owns s tr g owner row → Fs.holders row tr = owner.holders

/-- The discipline of the two tables. -/
def tables : Discipline (Vfs σ) VfsCheck VfsWrite (Nat × DriverCall) Reply VfsCall Hold where
  inv := Agree
  idle := unlocked .nothing
  must _ := False
  during _ c h := c.2 = .unmount → ∃ row, h.phase = .clear row c.1
  allowed := Callable

/-! ## Steps -/

/-- What is left of a phase when the locks are given back. -/
def Phase.rest : Phase → Phase
  | .opening row => .opening row
  | .closing row => .closing row
  | _ => .nothing

theorem Phase.rest_opening {p : Phase} {row : Nat} : p.rest = .opening row ↔ p = .opening row := by
  cases p <;> simp [Phase.rest]

theorem Phase.rest_closing {p : Phase} {row : Nat} : p.rest = .closing row ↔ p = .closing row := by
  cases p <;> simp [Phase.rest]

section Steps

variable {s s' : Vfs σ} {tr tr' : VfsTrace} {g : Nat → Hold} {t : Nat} {h' : Hold}

theorem Hold.knows_rest {h : Hold} (rest : h.phase.rest = h.phase) (s : Vfs σ) : h.Knows s := by
  obtain ⟨table, files, phase⟩ := h
  cases phase with
  | nothing => trivial
  | opening => trivial
  | closing => trivial
  | _ => cases rest

theorem Hold.Knows.rest {h : Hold} (knows : h.Knows s) (free : h.table ≠ true) :
    h.phase.rest = h.phase := by
  obtain ⟨table, files, phase⟩ := h
  cases phase with
  | nothing => rfl
  | opening => rfl
  | closing => rfl
  | _ => exact absurd knows.1 free

/-- Without the lock of the mount table a thread relies on nothing. -/
theorem Hold.Knows.any {h : Hold} (knows : h.Knows s) (free : h.table ≠ true) (s' : Vfs σ) :
    h.Knows s' := Hold.knows_rest (knows.rest free) s'

/-- Without the lock of the open-file table a thread relies on no row of it. -/
theorem Hold.Knows.mount {h : Hold} (knows : h.Knows s) (free : h.files ≠ true)
    (same : s'.filesystems = s.filesystems) : h.Knows s' := by
  obtain ⟨table, files, phase⟩ := h
  cases phase with
  | nothing => trivial
  | opening => trivial
  | closing => trivial
  | vacant row =>
      simp only [Hold.Knows, same] at knows ⊢
      exact knows
  | found row fs =>
      simp only [Hold.Knows, same] at knows ⊢
      exact knows
  | _ => exact absurd knows.2.1 free

theorem Hold.Knows.congr {h : Hold} (knows : h.Knows s) (mounts : s'.filesystems = s.filesystems)
    (rows : ∀ i, (s'.files i).filesystem = (s.files i).filesystem) : h.Knows s' := by
  obtain ⟨table, files, phase⟩ := h
  cases phase <;> simp only [Hold.Knows, Mounted, mounts, rows] at knows ⊢ <;> exact knows

/-- What a step of one thread keeps, whoever owns the rows. -/
structure Step (s s' : Vfs σ) (g : Nat → Hold) (t : Nat) (h' : Hold) : Prop where
  table : Mutex s'.vfsTableSem fun t' => (Function.update g t h' t').table = true
  files : Mutex s'.openfileTableSem fun t' => (Function.update g t h' t').files = true
  usable : s'.vfsUsable = s.vfsUsable
  knows : h'.Knows s'
  others : ∀ t', t' ≠ t → (g t').Knows s'
  used : ∀ i fs, (s'.files i).filesystem = some fs → i < CONFIG_MAX_OPEN_FILES ∧ Mounted fs s'

theorem Step.allKnow (step : Step s s' g t h') (t' : Nat) : (Function.update g t h' t').Knows s' := by
  by_cases here : t' = t
  · subst here
    rw [Function.update_self]
    exact step.knows
  · rw [Function.update_of_ne here]
    exact step.others t' here

/-- The trace says the same about every row. -/
structure Silent (tr tr' : VfsTrace) : Prop where
  holders : ∀ row, Fs.holders row tr' = Fs.holders row tr
  handles : ∀ f, handleOpen f tr' = handleOpen f tr

theorem update_phase {p : Phase} (same : h'.phase = p ↔ (g t).phase = p) (t' : Nat) :
    (Function.update g t h' t').phase = p ↔ (g t').phase = p := by
  by_cases here : t' = t
  · subst here
    rw [Function.update_self, same]
  · rw [Function.update_of_ne here]

/-- A step that leaves every row with its owner. -/
theorem Agree.same (agree : Agree s tr g) (step : Step s s' g t h')
    (rows : ∀ i, (s'.files i).filesystem = (s.files i).filesystem)
    (phase : h'.phase.rest = (g t).phase.rest) (silent : Silent tr tr') :
    Agree s' tr' (Function.update g t h') := by
  have opening : ∀ row t', (Function.update g t h' t').phase = .opening row ↔
      (g t').phase = .opening row := fun row =>
    update_phase (by rw [← Phase.rest_opening, phase, Phase.rest_opening])
  have closing : ∀ row t', (Function.update g t h' t').phase = .closing row ↔
      (g t').phase = .closing row := fun row =>
    update_phase (by rw [← Phase.rest_closing, phase, Phase.rest_closing])
  have owns : ∀ owner row, Owns s' tr' (Function.update g t h') owner row ↔
      Owns s tr g owner row := by
    intro owner row
    cases owner with
    | nobody => simp only [Owns, rows]
    | opener t' => exact opening row t'
    | handle => simp only [Owns, silent.handles]
    | closer t' => exact closing row t'
  exact {
    table := step.table
    files := step.files
    usable := step.usable.trans agree.usable
    knows := step.allKnow
    used := step.used
    owners := agree.owners.congr owns
    held := fun owner row owned =>
      (silent.holders row).trans (agree.held owner row ((owns owner row).1 owned)) }

/-- A step that gives one row a new owner. -/
theorem Agree.move (agree : Agree s tr g) (step : Step s s' g t h') (row : Nat) (new : Owner)
    (here : ∀ owner, Owns s' tr' (Function.update g t h') owner row ↔ owner = new)
    (elsewhere : ∀ owner row', row' ≠ row →
      (Owns s' tr' (Function.update g t h') owner row' ↔ Owns s tr g owner row'))
    (heldHere : holders row tr' = new.holders)
    (heldElse : ∀ row', row' ≠ row → holders row' tr' = holders row' tr) :
    Agree s' tr' (Function.update g t h') where
  table := step.table
  files := step.files
  usable := step.usable.trans agree.usable
  knows := step.allKnow
  used := step.used
  owners := agree.owners.move row new here elsewhere
  held owner row' owned := by
    by_cases this : row' = row
    · subst this
      rw [heldHere, (here owner).1 owned]
    · rw [heldElse row' this]
      exact agree.held owner row' ((elsewhere owner row' this).1 owned)

/-- The tables hold the same filesystems, under the same locks. -/
structure SameTables (s s' : Vfs σ) : Prop where
  table : s'.vfsTableSem = s.vfsTableSem
  files : s'.openfileTableSem = s.openfileTableSem
  usable : s'.vfsUsable = s.vfsUsable
  mounts : s'.filesystems = s.filesystems
  rows : ∀ i, (s'.files i).filesystem = (s.files i).filesystem

/-- The event says nothing about any row. -/
def Unseen (o : VfsCall) (e : Option (Event VfsWrite (Nat × DriverCall) Reply)) : Prop :=
  ∀ t tr, Silent tr (record t o e tr)

theorem silent_none (t : Nat) (o : VfsCall) : Silent tr (record t o none tr) :=
  ⟨fun _ => rfl, fun _ => rfl⟩

/-- The thread's locks and phase change, the tables do not. -/
theorem Agree.relock (agree : Agree s tr g) (mounts : s'.filesystems = s.filesystems)
    (rows : ∀ i, (s'.files i).filesystem = (s.files i).filesystem)
    (usable : s'.vfsUsable = s.vfsUsable)
    (table : Mutex s'.vfsTableSem fun t' => (Function.update g t h' t').table = true)
    (files : Mutex s'.openfileTableSem fun t' => (Function.update g t h' t').files = true)
    (knows : h'.Knows s) (phase : h'.phase.rest = (g t).phase.rest) (silent : Silent tr tr') :
    Agree s' tr' (Function.update g t h') := by
  refine agree.same ?_ rows phase silent
  exact {
    table := table
    files := files
    usable := usable
    knows := knows.congr mounts rows
    others := fun t' _ => (agree.knows t').congr mounts rows
    used := fun i fs found => by
      have before := agree.used i fs (by rw [← rows]; exact found)
      simpa only [Mounted, mounts] using before }

variable (o : VfsCall)

/-- A step that neither table shows. -/
theorem moves_quiet (h : Hold) {pre : Vfs σ → Prop} {f : Vfs σ → Vfs σ}
    {e : Option (Event VfsWrite (Nat × DriverCall) Reply)} (same : ∀ s, SameTables s (f s))
    (unseen : Unseen o e) : tables.Moves o h h pre f e := by
  rintro s tr g t agree rfl -
  have keep := Function.update_eq_self t g
  refine agree.relock (same s).mounts (same s).rows (same s).usable ?_ ?_ (agree.knows t) rfl
    (unseen t tr)
  · rw [keep, (same s).table]
    exact agree.table
  · rw [keep, (same s).files]
    exact agree.files

/-- A thread knows something more, or less. -/
theorem Agree.learn (agree : Agree s tr g) (t : Nat) (phase : Phase)
    (rest : phase.rest = (g t).phase.rest) (knows : Hold.Knows { g t with phase := phase } s) :
    Agree s tr (Function.update g t { g t with phase := phase }) :=
  agree.relock rfl (fun _ => rfl) rfl (agree.table.keep (fun h : Hold => h.table = true) Iff.rfl)
    (agree.files.keep (fun h : Hold => h.files = true) Iff.rfl) knows rest
    ⟨fun _ => rfl, fun _ => rfl⟩

/-- `semaphore_P(vfs_table.sem)`. -/
theorem moves_takeTable (phase : Phase) :
    tables.Moves o ⟨false, false, phase⟩ ⟨true, false, phase⟩
      (fun s : Vfs σ => 0 < s.sem .vfsTable) (fun s => s.addSem .vfsTable (-1)) none := by
  intro s tr g t agree here positive
  have knows := agree.knows t
  rw [here] at knows
  have taken := agree.table.take (fun h : Hold => h.table = true) positive t
    (show Hold.table ⟨true, false, phase⟩ = true from rfl)
  refine agree.relock rfl (fun _ => rfl) rfl taken
    (agree.files.keep (fun h : Hold => h.files = true) (by rw [here])) ?_ (by rw [here])
    (silent_none t o)
  have rest : phase.rest = phase := knows.rest Bool.false_ne_true
  exact Hold.knows_rest rest s

/-- `semaphore_V(vfs_table.sem)`. -/
theorem moves_giveTable (phase : Phase) :
    tables.Moves o ⟨true, false, phase⟩ ⟨false, false, phase.rest⟩
      (fun _ : Vfs σ => True) (fun s => s.addSem .vfsTable 1) none := by
  rintro s tr g t agree here -
  have given := agree.table.give (fun h : Hold => h.table = true) (by rw [here])
    (show ¬Hold.table ⟨false, false, phase.rest⟩ = true from Bool.false_ne_true)
  refine agree.relock rfl (fun _ => rfl) rfl given
    (agree.files.keep (fun h : Hold => h.files = true) (by rw [here])) ?_ ?_ (silent_none t o)
  · exact Hold.knows_rest (by cases phase <;> rfl) s
  · rw [here]
    cases phase <;> rfl

/-- `semaphore_P(openfile_table.sem)`. -/
theorem moves_takeFiles (table : Bool) (phase : Phase) :
    tables.Moves o ⟨table, false, phase⟩ ⟨table, true, phase⟩
      (fun s : Vfs σ => 0 < s.sem .openfileTable) (fun s => s.addSem .openfileTable (-1)) none := by
  intro s tr g t agree here positive
  have knows := agree.knows t
  rw [here] at knows
  have taken := agree.files.take (fun h : Hold => h.files = true) positive t
    (show Hold.files ⟨table, true, phase⟩ = true from rfl)
  refine agree.relock rfl (fun _ => rfl) rfl
    (agree.table.keep (fun h : Hold => h.table = true) (by rw [here])) taken ?_ (by rw [here])
    (silent_none t o)
  cases phase with
  | freeRow row => exact absurd knows.2.1 Bool.false_ne_true
  | mountable row fs => exact absurd knows.2.1 Bool.false_ne_true
  | clear row fs => exact absurd knows.2.1 Bool.false_ne_true
  | _ => exact knows

/-- `semaphore_V(openfile_table.sem)`. -/
theorem moves_giveFiles (table : Bool) (phase : Phase) :
    tables.Moves o ⟨table, true, phase⟩ ⟨table, false, phase.rest⟩
      (fun _ : Vfs σ => True) (fun s => s.addSem .openfileTable 1) none := by
  rintro s tr g t agree here -
  have given := agree.files.give (fun h : Hold => h.files = true) (by rw [here])
    (show ¬Hold.files ⟨table, false, phase.rest⟩ = true from Bool.false_ne_true)
  refine agree.relock rfl (fun _ => rfl) rfl
    (agree.table.keep (fun h : Hold => h.table = true) (by rw [here])) given ?_ ?_ (silent_none t o)
  · exact Hold.knows_rest (by cases phase <;> rfl) s
  · rw [here]
    cases phase <;> rfl

/-- Only the holder of the mount table relies on it. -/
theorem Agree.others_any (agree : Agree s tr g) (held : (g t).table = true) (s' : Vfs σ) :
    ∀ t', t' ≠ t → (g t').Knows s' := by
  intro t' other
  refine (agree.knows t').any (fun locked => other ?_) s'
  exact agree.table.unique (fun h : Hold => h.table = true) held locked

/-- `vfs_table.filesystems[row].filesystem = fs`, in a row that was seen free. -/
theorem moves_mounted (row fs : Nat) (name : Name)
    (unseen : Unseen o (some (.wrote (.mounted row fs name)))) :
    tables.Moves o ⟨true, false, .vacant row⟩ ⟨true, false, .nothing⟩ (fun _ : Vfs σ => True)
      (VfsWrite.mounted row fs name).apply (some (.wrote (.mounted row fs name))) := by
  rintro s tr g t agree here -
  have knows := agree.knows t
  rw [here] at knows
  refine agree.same ?_ (fun _ => rfl) (by rw [here]; rfl) (unseen t tr)
  exact {
    table := agree.table.keep (fun h : Hold => h.table = true) (by rw [here])
    files := agree.files.keep (fun h : Hold => h.files = true) (by rw [here])
    usable := rfl
    knows := trivial
    others := agree.others_any (by rw [here]) _
    used := fun i fs' found => by
      obtain ⟨bound, r, inTable, mounted⟩ := agree.used i fs' found
      have other : r ≠ row := by
        rintro rfl
        rw [knows.2] at mounted
        cases mounted
      refine ⟨bound, r, inTable, ?_⟩
      simpa [VfsWrite.apply, Vfs.setFilesystem, other] using mounted }

/-- `vfs_table.filesystems[row].filesystem = NULL`, when no row refers to the filesystem. -/
theorem moves_unmounted (row fs : Nat) (unseen : Unseen o (some (.wrote (.unmounted row)))) :
    tables.Moves o ⟨true, true, .clear row fs⟩ ⟨true, true, .nothing⟩ (fun _ : Vfs σ => True)
      (VfsWrite.unmounted row).apply (some (.wrote (.unmounted row))) := by
  rintro s tr g t agree here -
  have knows := agree.knows t
  rw [here] at knows
  obtain ⟨-, -, mountedHere, unused⟩ := knows
  refine agree.same ?_ (fun _ => rfl) (by rw [here]; rfl) (unseen t tr)
  exact {
    table := agree.table.keep (fun h : Hold => h.table = true) (by rw [here])
    files := agree.files.keep (fun h : Hold => h.files = true) (by rw [here])
    usable := rfl
    knows := trivial
    others := agree.others_any (by rw [here]) _
    used := fun i fs' found => by
      obtain ⟨bound, r, inTable, mounted⟩ := agree.used i fs' found
      have other : r ≠ row := by
        rintro rfl
        rw [mountedHere] at mounted
        cases mounted
        exact unused i found
      refine ⟨bound, r, inTable, ?_⟩
      simpa [VfsWrite.apply, Vfs.setFilesystem, other] using mounted }

/-- The owner of a row is the one that owns it. -/
theorem Agree.owner (agree : Agree s tr g) {owner : Owner} {row : Nat}
    (one : Owns s tr g owner row) (owner' : Owner) (two : Owns s tr g owner' row) :
    owner' = owner :=
  agree.owners.unique two one

/-- `openfile_table.files[row].filesystem = fs`: the row gets its open. -/
theorem moves_reserved (pathname : Name) (row fs : Nat) :
    tables.Moves (.openFile pathname) ⟨true, true, .mountable row fs⟩ ⟨true, true, .opening row⟩
      (fun _ : Vfs σ => True) (VfsWrite.reserved row fs).apply
      (some (.wrote (.reserved row fs))) := by
  rintro s tr g t agree here -
  have knows := agree.knows t
  rw [here] at knows
  obtain ⟨-, -, bound, free, mounted⟩ := knows
  have nobody : Owns s tr g .nobody row := free
  refine agree.move ?_ row (.opener t) ?_ ?_ ?_ ?_
  · exact {
      table := agree.table.keep (fun h : Hold => h.table = true) (by rw [here])
      files := agree.files.keep (fun h : Hold => h.files = true) (by rw [here])
      usable := rfl
      knows := trivial
      others := agree.others_any (by rw [here]) _
      used := fun i fs' found => by
        by_cases this : i = row
        · subst this
          simp only [VfsWrite.apply, Vfs.setFile, Function.update_self, Option.some.injEq] at found
          subst found
          exact ⟨bound, mounted⟩
        · simp only [VfsWrite.apply, Vfs.setFile, Function.update_of_ne this] at found
          exact agree.used i fs' found }
  · intro owner
    cases owner with
    | nobody => simp [Owns, VfsWrite.apply, Vfs.setFile]
    | opener t' =>
        by_cases this : t' = t
        · simp [Owns, this]
        · simp only [Owns, Function.update_of_ne this, Owner.opener.injEq, this, iff_false]
          intro owned
          cases agree.owner nobody (.opener t') owned
    | handle =>
        simp only [reduceCtorEq, iff_false]
        intro owned
        cases agree.owner nobody .handle owned
    | closer t' =>
        simp only [reduceCtorEq, iff_false]
        by_cases this : t' = t
        · simp [Owns, this]
        · simp only [Owns, Function.update_of_ne this]
          intro owned
          cases agree.owner nobody (.closer t') owned
  · intro owner row' this
    cases owner with
    | nobody => simp [Owns, VfsWrite.apply, Vfs.setFile, this]
    | opener t' => exact update_phase (by simp [here, Ne.symm this]) t'
    | handle => rfl
    | closer t' => exact update_phase (by simp [here]) t'
  · have before := agree.held .nobody row nobody
    simp [record, holders, before, Owner.holders]
  · intro row' this
    simp [record, holders, Ne.symm this]

/-- The row a thread holds is free again. -/
theorem Agree.release (agree : Agree s tr g) {phase : Phase} (here : g t = ⟨false, true, phase⟩)
    {row : Nat} {old : Owner} (owned : Owns s tr g old row)
    (mine : (old = .opener t ∧ phase = .opening row) ∨ (old = .closer t ∧ phase = .closing row))
    (handles : ∀ f, handleOpen f tr' = handleOpen f tr) (heldHere : holders row tr' = [])
    (heldElse : ∀ row', row' ≠ row → holders row' tr' = holders row' tr) :
    Agree ((VfsWrite.released row).apply s) tr' (Function.update g t ⟨false, true, .nothing⟩) := by
  have free : ∀ i, i ≠ row → (((VfsWrite.released row).apply s).files i).filesystem =
      (s.files i).filesystem := by
    intro i this
    simp [VfsWrite.apply, Vfs.setFile, this]
  have cleared : (((VfsWrite.released row).apply s).files row).filesystem = none := by
    simp [VfsWrite.apply, Vfs.setFile]
  have others : ∀ t', t' ≠ t → (g t').Knows ((VfsWrite.released row).apply s) := by
    intro t' other
    refine (agree.knows t').mount (fun locked => other ?_) rfl
    exact agree.files.unique (fun h : Hold => h.files = true) (by rw [here]) locked
  refine agree.move ?_ row .nobody ?_ ?_ heldHere heldElse
  · exact {
      table := agree.table.keep (fun h : Hold => h.table = true) (by rw [here])
      files := agree.files.keep (fun h : Hold => h.files = true) (by rw [here])
      usable := rfl
      knows := trivial
      others := others
      used := fun i fs found => by
        by_cases this : i = row
        · subst this
          rw [cleared] at found
          cases found
        · rw [free i this] at found
          exact agree.used i fs found }
  · intro owner
    cases owner with
    | nobody => simp only [Owns, cleared]
    | opener t' =>
        simp only [reduceCtorEq, iff_false]
        by_cases this : t' = t
        · simp [Owns, this]
        · simp only [Owns, Function.update_of_ne this]
          intro other
          have same := agree.owner owned (.opener t') other
          rcases mine with ⟨rfl, -⟩ | ⟨rfl, -⟩
          · exact this (Owner.opener.inj same)
          · cases same
    | handle =>
        simp only [reduceCtorEq, iff_false, Owns, handles]
        intro other
        have same := agree.owner owned .handle other
        rcases mine with ⟨rfl, -⟩ | ⟨rfl, -⟩ <;> cases same
    | closer t' =>
        simp only [reduceCtorEq, iff_false]
        by_cases this : t' = t
        · simp [Owns, this]
        · simp only [Owns, Function.update_of_ne this]
          intro other
          have same := agree.owner owned (.closer t') other
          rcases mine with ⟨rfl, -⟩ | ⟨rfl, -⟩
          · cases same
          · exact this (Owner.closer.inj same)
  · intro owner row' this
    cases owner with
    | nobody => simp only [Owns, free row' this]
    | opener t' =>
        refine update_phase ?_ t'
        rw [here]
        rcases mine with ⟨-, rfl⟩ | ⟨-, rfl⟩ <;> simp [Ne.symm this]
    | handle => simp only [Owns, handles]
    | closer t' =>
        refine update_phase ?_ t'
        rw [here]
        rcases mine with ⟨-, rfl⟩ | ⟨-, rfl⟩ <;> simp [Ne.symm this]

/-- The rollback of an open. -/
theorem moves_rolledBack (pathname : Name) (row : Nat) :
    tables.Moves (.openFile pathname) ⟨false, true, .opening row⟩ ⟨false, true, .nothing⟩
      (fun _ : Vfs σ => True) (VfsWrite.released row).apply (some (.wrote (.released row))) := by
  rintro s tr g t agree here -
  have owned : Owns s tr g (.opener t) row := by rw [Owns, here]
  refine agree.release here owned (Or.inl ⟨rfl, rfl⟩) (fun _ => rfl) ?_ ?_
  · have before := agree.held _ row owned
    simp [record, holders, before, Owner.holders]
  · intro row' this
    simp [record, holders, Ne.symm this]

/-- The close of a handle. -/
theorem moves_closed (f : Int) (row : Nat) :
    tables.Moves (.close f) ⟨false, true, .closing row⟩ ⟨false, true, .nothing⟩
      (fun _ : Vfs σ => True) (VfsWrite.released row).apply (some (.wrote (.released row))) := by
  rintro s tr g t agree here -
  have owned : Owns s tr g (.closer t) row := by rw [Owns, here]
  refine agree.release here owned (Or.inr ⟨rfl, rfl⟩) (fun _ => rfl) ?_ ?_
  · have before := agree.held _ row owned
    simp [record, holders, before, Owner.holders]
  · intro row' this
    simp [record, holders, Ne.symm this]

/-- `vfs_open` returns the row as a handle. -/
theorem moves_opened (pathname : Name) (row : Nat) :
    tables.Moves (.openFile pathname) (unlocked (.opening row)) (unlocked .nothing)
      (fun _ : Vfs σ => True) id (some (.returned row)) := by
  rintro s tr g t agree here -
  have owned : Owns s tr g (.opener t) row := by rw [Owns, here]; rfl
  refine agree.move ?_ row .handle ?_ ?_ ?_ ?_
  · exact {
      table := agree.table.keep (fun h : Hold => h.table = true) (by rw [here]; rfl)
      files := agree.files.keep (fun h : Hold => h.files = true) (by rw [here]; rfl)
      usable := rfl
      knows := trivial
      others := fun t' _ => agree.knows t'
      used := agree.used }
  · intro owner
    cases owner with
    | nobody =>
        simp only [reduceCtorEq, iff_false]
        intro other
        cases agree.owner owned .nobody other
    | opener t' =>
        simp only [reduceCtorEq, iff_false]
        by_cases this : t' = t
        · simp [Owns, this, unlocked]
        · simp only [Owns, Function.update_of_ne this]
          intro other
          exact this (Owner.opener.inj (agree.owner owned (.opener t') other))
    | handle => simp [Owns, record, handleOpen]
    | closer t' =>
        simp only [reduceCtorEq, iff_false]
        by_cases this : t' = t
        · simp [Owns, this, unlocked]
        · simp only [Owns, Function.update_of_ne this]
          intro other
          cases agree.owner owned (.closer t') other
  · intro owner row' this
    cases owner with
    | nobody => rfl
    | opener t' => exact update_phase (by simp [here, unlocked, Ne.symm this]) t'
    | handle =>
        have ne : (row : Int) ≠ row' := by omega
        simp [Owns, record, handleOpen, ne]
    | closer t' => exact update_phase (by simp [here, unlocked]) t'
  · have before := agree.held _ row owned
    simp [record, holders, before, Owner.holders]
  · intro row' this
    have ne : (row : Int) ≠ row' := by omega
    simp [record, holders, ne]

theorem handleOpen_nonneg {f : Int} (isOpen : handleOpen f tr = true) : 0 ≤ f := by
  induction tr using handleOpen.induct with
  | case1 => cases isOpen
  | case2 t pathname v tr ih =>
      simp only [handleOpen, Bool.or_eq_true, Bool.and_eq_true, decide_eq_true_eq,
        beq_iff_eq] at isOpen
      rcases isOpen with ⟨low, rfl⟩ | before
      · exact low
      · exact ih before
  | case3 t f' tr ih =>
      simp only [handleOpen, Bool.and_eq_true] at isOpen
      exact ih isOpen.2
  | case4 e tr _ _ ih =>
      rw [handleOpen] at isOpen
      · exact ih isOpen
      all_goals assumption

/-- A close of an open handle takes the row over. -/
theorem entered_close {f : Int} (agree : Agree s tr g) (outside : g t = unlocked .nothing)
    (isOpen : handleOpen f tr = true) :
    Agree s ((t, .close f, .entered) :: tr)
      (Function.update g t (unlocked (.closing f.toNat))) := by
  have low := handleOpen_nonneg isOpen
  have cast : (f.toNat : Int) = f := Int.toNat_of_nonneg low
  have owned : Owns s tr g .handle f.toNat := by
    rw [Owns, cast]
    exact isOpen
  refine agree.move ?_ f.toNat (.closer t) ?_ ?_ ?_ ?_
  · exact {
      table := agree.table.keep (fun h : Hold => h.table = true) (by rw [outside]; rfl)
      files := agree.files.keep (fun h : Hold => h.files = true) (by rw [outside]; rfl)
      usable := rfl
      knows := trivial
      others := fun t' _ => agree.knows t'
      used := agree.used }
  · intro owner
    cases owner with
    | nobody =>
        simp only [reduceCtorEq, iff_false]
        intro other
        cases agree.owner owned .nobody other
    | opener t' =>
        simp only [reduceCtorEq, iff_false]
        by_cases this : t' = t
        · simp [Owns, this, unlocked]
        · simp only [Owns, Function.update_of_ne this]
          intro other
          cases agree.owner owned (.opener t') other
    | handle => simp [Owns, handleOpen, cast]
    | closer t' =>
        by_cases this : t' = t
        · simp [Owns, this, unlocked]
        · simp only [Owns, Function.update_of_ne this, Owner.closer.injEq, this, iff_false]
          intro other
          cases agree.owner owned (.closer t') other
  · intro owner row' this
    cases owner with
    | nobody => rfl
    | opener t' => exact update_phase (by simp [outside, unlocked]) t'
    | handle =>
        have ne : f ≠ row' := by omega
        simp [Owns, handleOpen, ne]
    | closer t' => exact update_phase (by simp [outside, unlocked, Ne.symm this]) t'
  · have before := agree.held .handle _ owned
    exact before
  · intro row' _
    rfl

end Steps

/-! ## The code -/

section Unseen

variable (o : VfsCall)

theorem unseen_none : Unseen o none := fun t _ => silent_none t o

theorem unseen_wrote {w : VfsWrite} (kept : (∀ row fs, w ≠ .reserved row fs) ∧ ∀ row, w ≠ .released row) :
    Unseen o (some (.wrote w)) := by
  intro t tr
  refine ⟨fun row => ?_, fun f => ?_⟩
  · cases w with
    | reserved row fs => exact absurd rfl (kept.1 row fs)
    | released row => exact absurd rfl (kept.2 row)
    | _ => cases o <;> rfl
  · cases o <;> rfl

theorem unseen_called (r : Nat × DriverCall) : Unseen o (some (.called r)) :=
  fun _ _ => ⟨fun _ => by cases o <;> rfl, fun _ => by cases o <;> rfl⟩

theorem unseen_answered (r : Nat × DriverCall) (reply : Reply) :
    Unseen o (some (.answered r reply)) :=
  fun _ _ => ⟨fun _ => by cases o <;> rfl, fun _ => by cases o <;> rfl⟩

theorem unseen_returned {a : Int} (notHandle : a < 0 ∨ ∀ pathname, o ≠ .openFile pathname) :
    Unseen o (some (.returned a)) := by
  intro t tr
  cases o with
  | openFile pathname =>
      rcases notHandle with negative | other
      · refine ⟨fun row => ?_, fun f => ?_⟩
        · have ne : a ≠ row := by omega
          simp [record, holders, ne]
        · have low : ¬0 ≤ a := by omega
          simp [record, handleOpen, low]
      · exact absurd rfl (other pathname)
  | _ => exact ⟨fun _ => rfl, fun _ => rfl⟩

end Unseen

section Code

variable {o : VfsCall} {α : Type} {Q : α → Hold → Prop} {h : Hold}

abbrev Keeps (o : VfsCall) (Q : α → Hold → Prop) (c : VfsCode σ α) (h : Hold) : Prop :=
  c.Safe vfsShared tables o Q h

/-- Semaphores of the shutdown protocol. -/
def Protocol (k : VfsSem) : Prop := k = .vfsOp ∨ k = .vfsUnmount

theorem sameTables_addSem {k : VfsSem} (protocol : Protocol k) (s : Vfs σ) (d : Int) :
    SameTables s (s.addSem k d) := by
  rcases protocol with rfl | rfl
  · exact ⟨rfl, rfl, rfl, rfl, fun _ => rfl⟩
  · exact ⟨rfl, rfl, rfl, rfl, fun _ => rfl⟩

theorem keeps_semP {k : VfsSem} (protocol : Protocol k) {c : Unit → VfsCode σ α}
    (rest : Keeps o Q (c ()) h) : Keeps o Q (Code.semP k >>= c) h :=
  Code.Safe.semP (moves_quiet o h (fun s => sameTables_addSem protocol s _) (unseen_none o)) rest

theorem keeps_semV {k : VfsSem} (protocol : Protocol k) {c : Unit → VfsCode σ α}
    (rest : Keeps o Q (c ()) h) : Keeps o Q (Code.semV k >>= c) h :=
  Code.Safe.semV (moves_quiet o h (fun s => sameTables_addSem protocol s _) (unseen_none o)) rest

theorem keeps_assert {l : VfsCheck} {c : Unit → VfsCode σ α} (rest : Keeps o Q (c ()) h) :
    Keeps o Q (Code.assert l >>= c) h :=
  Code.Safe.assert False.elim
    (moves_quiet o h (fun _ => ⟨rfl, rfl, rfl, rfl, fun _ => rfl⟩) (unseen_none o)) rest

theorem keeps_driver {fs : Nat} {request : DriverCall}
    (cleared : request = .unmount → ∃ row, h.phase = .clear row fs) {c : Int → VfsCode σ α}
    (rest : ∀ ret, Keeps o Q (c ret) h) : Keeps o Q (VfsCode.driver fs request >>= c) h :=
  safe_driver (r := (fs, request)) cleared
    (moves_quiet o h (fun _ => ⟨rfl, rfl, rfl, rfl, fun _ => rfl⟩) (unseen_called o _))
    (fun reply => moves_quiet o h (fun _ => ⟨rfl, rfl, rfl, rfl, fun _ => rfl⟩)
      (unseen_answered o _ reply)) rest

/-- The VFS is usable, so every operation starts. -/
theorem keeps_startOp :
    Keeps o (fun ret h' => ret = VFS_OK ∧ h' = h) (VfsCode.vfsStartOp : VfsCode σ Int) h := by
  refine keeps_semP (Or.inl rfl) (Code.Safe.gets fun s tr g t agree here => ?_)
  refine ⟨h, by rwa [← here, Function.update_eq_self], ?_⟩
  simp only [agree.usable, if_true]
  refine Code.Safe.set (moves_quiet o h (fun _ => ⟨rfl, rfl, rfl, rfl, fun _ => rfl⟩)
    (unseen_wrote o (by simp))) ?_
  exact keeps_semV (Or.inl rfl) (Code.Safe.pure ⟨rfl, rfl⟩)

theorem keeps_operation {Q : Int → Hold → Prop} {c : VfsCode σ Int} (body : Keeps o Q c h) :
    Keeps o Q (do
      let started ← VfsCode.vfsStartOp
      if started ≠ VFS_OK then pure VFS_UNUSABLE else c) h := by
  refine Code.Safe.bind keeps_startOp ?_
  rintro started h' ⟨rfl, rfl⟩
  exact body

theorem keeps_leave {a : α} (done : Q a h) : Keeps o Q (VfsCode.leave a : VfsCode σ α) h := by
  refine Code.Safe.bind (Q := fun _ h' => h' = h) ?_ ?_
  · refine keeps_semP (Or.inl rfl) (Code.Safe.set (moves_quiet o h
      (fun _ => ⟨rfl, rfl, rfl, rfl, fun _ => rfl⟩) (unseen_wrote o (by simp))) ?_)
    refine keeps_assert (Code.Safe.gets_same fun s => ?_)
    split
    · exact keeps_semV (Or.inr rfl) (keeps_semV (c := pure) (Or.inl rfl) rfl)
    · exact keeps_semV (c := pure) (Or.inl rfl) rfl
  · rintro _ h' rfl
    exact done

end Code

/-! ## The entry points -/

section Entries

variable {o : VfsCall}

/-- A thread with ghost `h` may return `a`. -/
abbrev Done (σ : Type) (o : VfsCall) (a : Int) (h : Hold) : Prop :=
  Discipline.Leaves (tables : Discipline (Vfs σ) VfsCheck VfsWrite (Nat × DriverCall) Reply
    VfsCall Hold) o a h

/-- The rest of an entry point keeps the discipline until it returns. -/
abbrev Whole (σ : Type) (o : VfsCall) (c : VfsCode σ Int) (h : Hold) : Prop :=
  Keeps o (Done σ o) c h

theorem leaves {a : Int} (notHandle : a < 0 ∨ ∀ pathname, o ≠ .openFile pathname) :
    Done σ o a (unlocked .nothing) :=
  moves_quiet o _ (fun _ => ⟨rfl, rfl, rfl, rfl, fun _ => rfl⟩) (unseen_returned o notHandle)

/-- Give the mount table back and leave without a handle. -/
theorem keeps_release {phase : Phase} (rest : phase.rest = .nothing) {a : Int}
    (notHandle : a < 0 ∨ ∀ pathname, o ≠ .openFile pathname) :
    Whole σ o (do Code.semV .vfsTable; VfsCode.leave a) ⟨true, false, phase⟩ := by
  refine Code.Safe.semV (moves_giveTable o phase) ?_
  rw [rest]
  exact keeps_leave (leaves notHandle)

/-- Give both tables back and leave without a handle. -/
theorem keeps_releaseBoth {phase : Phase} (rest : phase.rest = .nothing) {a : Int}
    (notHandle : a < 0 ∨ ∀ pathname, o ≠ .openFile pathname) :
    Whole σ o (do Code.semV .openfileTable; Code.semV .vfsTable; VfsCode.leave a)
      ⟨true, true, phase⟩ := by
  refine Code.Safe.semV (moves_giveFiles o true phase) ?_
  rw [rest]
  exact keeps_release rfl notHandle

theorem keeps_mount (fs : Nat) (name : Name) :
    Whole σ (.mount fs name) (VfsCode.vfsMount fs name) (unlocked .nothing) := by
  have notHandle : ∀ a : Int, a < 0 ∨ ∀ pathname, VfsCall.mount fs name ≠ .openFile pathname :=
    fun _ => Or.inr (by simp)
  refine keeps_assert (keeps_operation (Code.Safe.semP (moves_takeTable _ _) ?_))
  refine Code.Safe.gets fun s tr g t agree here => ?_
  cases free : freeMount s with
  | none =>
      refine ⟨⟨true, false, .nothing⟩, ?_, keeps_release rfl (notHandle _)⟩
      rwa [← here, Function.update_eq_self]
  | some row =>
      obtain ⟨-, vacant⟩ := freeMount_some free
      have learned := agree.learn t (.vacant row) (by rw [here]; rfl)
        (by rw [here]; exact ⟨rfl, vacant⟩)
      rw [here] at learned
      refine ⟨_, learned, Code.Safe.gets_same fun s => ?_⟩
      cases findMountpoint s name with
      | some other => exact keeps_release rfl (notHandle _)
      | none =>
          refine Code.Safe.set (moves_mounted _ row fs _ (unseen_wrote _ (by simp))) ?_
          exact keeps_release rfl (notHandle _)

theorem keeps_unmount (name : Name) :
    Whole σ (.unmount name) (VfsCode.vfsUnmount name) (unlocked .nothing) := by
  have notHandle : ∀ a : Int, a < 0 ∨ ∀ pathname, VfsCall.unmount name ≠ .openFile pathname :=
    fun _ => Or.inr (by simp)
  refine keeps_operation (Code.Safe.semP (moves_takeTable _ _) ?_)
  refine Code.Safe.gets fun s tr g t agree here => ?_
  split
  · refine ⟨⟨true, false, .nothing⟩, ?_, keeps_release rfl (notHandle _)⟩
    rwa [← here, Function.update_eq_self]
  · rename_i row fs found
    obtain ⟨r, -, volume⟩ := Option.bind_eq_some_iff.1 found
    obtain ⟨fs', mounted, same⟩ := Option.map_eq_some_iff.1 volume
    cases same
    have learned := agree.learn t (.found row fs) (by rw [here]; rfl)
      (by rw [here]; exact ⟨rfl, mounted⟩)
    rw [here] at learned
    refine ⟨_, learned, Code.Safe.semP (moves_takeFiles _ true (.found row fs)) ?_⟩
    refine Code.Safe.gets fun s tr g t agree here => ?_
    cases inUse : openOn fs s with
    | some i =>
        refine ⟨⟨true, true, .found row fs⟩, ?_, keeps_releaseBoth rfl (notHandle _)⟩
        rwa [← here, Function.update_eq_self]
    | none =>
        -- the scan covers every used row
        have unused : ∀ i, (s.files i).filesystem ≠ some fs := by
          intro i refers
          obtain ⟨bound, -⟩ := agree.used i fs refers
          exact openOn_none inUse bound refers
        have knows := agree.knows t
        rw [here] at knows
        have learned := agree.learn t (.clear row fs) (by rw [here]; rfl)
          (by rw [here]; exact ⟨rfl, rfl, knows.2, unused⟩)
        rw [here] at learned
        refine ⟨_, learned, keeps_driver (fun _ => ⟨row, rfl⟩) fun _ => ?_⟩
        refine Code.Safe.set (moves_unmounted _ row fs (unseen_wrote _ (by simp))) ?_
        exact keeps_releaseBoth rfl (notHandle _)

theorem mounted_of_vfsGetFilesystem {s : Vfs σ} {name : Name} {fs : Nat}
    (found : vfsGetFilesystem s name = some fs) : Mounted fs s := by
  obtain ⟨row, first, mounted⟩ := Option.bind_eq_some_iff.1 found
  exact ⟨row, List.mem_range.1 (List.mem_of_find?_eq_some first), mounted⟩

theorem keeps_open (pathname : Name) :
    Whole σ (.openFile pathname) (VfsCode.vfsOpen pathname) (unlocked .nothing) := by
  refine keeps_operation ?_
  split
  · exact keeps_leave (leaves (Or.inl (by decide)))
  rename_i volumename filename _
  refine Code.Safe.semP (moves_takeTable _ _) (Code.Safe.semP (moves_takeFiles _ _ _) ?_)
  refine Code.Safe.gets fun s tr g t agree here => ?_
  cases free : freeRow s with
  | none =>
      refine ⟨⟨true, true, .nothing⟩, ?_, keeps_releaseBoth rfl (Or.inl (by decide))⟩
      rwa [← here, Function.update_eq_self]
  | some row =>
      obtain ⟨bound, unused⟩ := freeRow_some free
      have learned := agree.learn t (.freeRow row) (by rw [here]; rfl)
        (by rw [here]; exact ⟨rfl, rfl, bound, unused⟩)
      rw [here] at learned
      refine ⟨_, learned, ?_⟩
      refine Code.Safe.gets fun s tr g t agree here => ?_
      cases volume : vfsGetFilesystem s volumename with
      | none =>
          refine ⟨⟨true, true, .freeRow row⟩, ?_, keeps_releaseBoth rfl (Or.inl (by decide))⟩
          rwa [← here, Function.update_eq_self]
      | some fs =>
          have knows := agree.knows t
          rw [here] at knows
          have learned := agree.learn t (.mountable row fs) (by rw [here]; rfl)
            (by rw [here]; exact ⟨rfl, rfl, knows.2.2.1, knows.2.2.2,
              mounted_of_vfsGetFilesystem volume⟩)
          rw [here] at learned
          refine ⟨_, learned, Code.Safe.set (moves_reserved pathname row fs) ?_⟩
          refine Code.Safe.semV (moves_giveFiles _ true (.opening row)) ?_
          refine Code.Safe.semV (moves_giveTable _ (.opening row)) ?_
          refine keeps_driver (by simp) fun fileid => Code.Safe.ite (fun failed => ?_) (fun _ => ?_)
          · refine Code.Safe.semP (moves_takeFiles _ false (.opening row)) ?_
            refine Code.Safe.set (moves_rolledBack pathname row) ?_
            refine Code.Safe.semV (moves_giveFiles _ false .nothing) ?_
            exact keeps_leave (leaves (Or.inl failed))
          · refine Code.Safe.set (moves_quiet _ _ (fun s => ⟨rfl, rfl, rfl, rfl, fun i => ?_⟩)
              (unseen_wrote _ (by simp))) (keeps_leave (moves_opened pathname row))
            by_cases this : i = row
            · subst this
              simp [vfsShared, VfsWrite.apply, Vfs.setFile]
            · simp [vfsShared, VfsWrite.apply, Vfs.setFile, this]

theorem keeps_close (f : Int) :
    Whole σ (.close f) (VfsCode.vfsClose f) (unlocked (.closing f.toNat)) := by
  refine keeps_operation (Code.Safe.semP (moves_takeFiles _ _ _) ?_)
  refine safe_verifyOpen (keeps_assert (Code.Safe.gets_same fun s => ?_))
  split
  · exact safe_crash not_false (leaves (Or.inr (by simp)))
  · refine keeps_driver (by simp) fun ret => Code.Safe.set (moves_closed f f.toNat) ?_
    refine Code.Safe.semV (moves_giveFiles _ false .nothing) ?_
    exact keeps_leave (leaves (Or.inr (by simp)))

end Entries

/-! ## Every run -/

theorem agree_start (internal : Nat → σ) :
    Agree (vfsInit internal) [] fun _ => unlocked .nothing where
  table := Or.inl ⟨rfl, fun _ => Bool.false_ne_true⟩
  files := Or.inl ⟨rfl, fun _ => Bool.false_ne_true⟩
  usable := rfl
  knows _ := trivial
  used i fs found := by cases found
  owners row := ⟨.nobody, rfl, fun owner owned => by cases owner <;> first | rfl | cases owned⟩
  held owner row owned := by cases owner <;> first | rfl | cases owned

theorem entered_quiet {s : Vfs σ} {tr : VfsTrace} {g : Nat → Hold} (agree : Agree s tr g) {t : Nat}
    (outside : g t = unlocked .nothing) (o : VfsCall) (other : ∀ f, o ≠ .close f) :
    Agree s ((t, o, .entered) :: tr) (Function.update g t (unlocked .nothing)) := by
  rw [← outside]
  refine agree.relock rfl (fun _ => rfl) rfl (agree.table.keep (fun h : Hold => h.table = true) Iff.rfl)
    (agree.files.keep (fun h : Hold => h.files = true) Iff.rfl) (agree.knows t) rfl ?_
  cases o with
  | close f => exact absurd rfl (other f)
  | _ => exact ⟨fun _ => rfl, fun _ => rfl⟩

theorem entry : tables.Entry vfsShared (VfsCall.code (σ := σ)) := by
  rintro o ⟨tr, callable⟩
  cases o with
  | mount fs name =>
      exact ⟨_, fun s tr g t agree idle _ => entered_quiet agree idle _ (by simp), keeps_mount fs name⟩
  | unmount name =>
      exact ⟨_, fun s tr g t agree idle _ => entered_quiet agree idle _ (by simp), keeps_unmount name⟩
  | openFile pathname =>
      exact ⟨_, fun s tr g t agree idle _ => entered_quiet agree idle _ (by simp), keeps_open pathname⟩
  | close f =>
      exact ⟨_, fun s tr g t agree idle isOpen => entered_close agree idle isOpen, keeps_close f⟩
  | _ => exact callable.elim

theorem explained {internal : Nat → σ} {s : VfsPool σ}
    (reached : (vfsPool internal).ReachableWhen CallersMove s) :
    ∃ g, tables.Explains vfsShared g s := by
  apply Discipline.explains_reachable (agree_start internal) entry
  exact reached.mono fun s m may => by cases m <;> exact may

end OpenTable

/-- **The two tables agree.**  In every run of threads that mount, unmount, open and close
their handles: every used row refers to a mounted filesystem, no row refers to a filesystem
while its driver's `unmount` runs, and no row is held by two opens. -/
theorem openTable_agrees (internal : Nat → σ) (s : VfsPool σ)
    (reached : (vfsPool internal).ReachableWhen CallersMove s) :
    (∀ i fs, (s.shared.files i).filesystem = some fs → Mounted fs s.shared) ∧
      (∀ t o fs next, s.threads t = some (o, .waiting (fs, .unmount) next) →
        ∀ i, (s.shared.files i).filesystem ≠ some fs) ∧
      ∀ row, (holders row s.trace).length ≤ 1 := by
  obtain ⟨g, holds⟩ := OpenTable.explained reached
  have agree : OpenTable.Agree s.shared s.trace g := holds.inv
  refine ⟨fun i fs found => (agree.used i fs found).2, fun t o fs next there => ?_, fun row => ?_⟩
  · obtain ⟨row, clear⟩ := holds.calling there rfl
    have knows := agree.knows t
    rw [OpenTable.Hold.Knows, clear] at knows
    exact knows.2.2.2
  · obtain ⟨owner, owned, -⟩ := agree.owners row
    rw [agree.held owner row owned]
    cases owner <;> simp [OpenTable.Owner.holders]

/-- Volume 7 is mounted as "[", and an open of "[[][" waits for the driver. -/
def openingMoves : List (Move VfsCall Reply) :=
  .enter 0 (.mount 7 [leftBracket]) :: List.replicate 16 (.step 0) ++
    .enter 1 (.openFile [leftBracket, leftBracket, rightBracket, leftBracket]) ::
      List.replicate 12 (.step 1)

theorem openingMoves_waits :
    (((vfsPool fun _ => ()).exec
      { shared := vfsInit fun _ => (), threads := fun _ => none, trace := [] } openingMoves).any
        fun s => decide ((s.shared.files 0).filesystem = some 7)) = true := by
  decide +kernel

/-- The reserved row refers to the mounted volume while its open is still under way. -/
theorem openTable_agrees_opening :
    ∃ s, (vfsPool fun _ => ()).ReachableWhen CallersMove s ∧
      (s.shared.files 0).filesystem = some 7 ∧ Mounted 7 s.shared := by
  obtain ⟨s, ran, waits⟩ := (Option.any_eq_true _ _).1 openingMoves_waits
  have guarded : (vfsPool fun _ => ()).Guarded CallersMove
      { shared := vfsInit fun _ => (), threads := fun _ => none, trace := [] } openingMoves := by
    apply System.guarded_of_forall
    intro m mem s
    simp only [openingMoves, List.cons_append, List.mem_cons, List.mem_append,
      List.mem_replicate] at mem
    rcases mem with rfl | ⟨-, rfl⟩ | rfl | ⟨-, rfl⟩ <;> trivial
  have reached : (vfsPool fun _ => ()).ReachableWhen CallersMove s :=
    (System.ReachableWhen.start rfl).exec guarded ran
  have used := of_decide_eq_true waits
  exact ⟨s, reached, used, (openTable_agrees (fun _ => ()) s reached).1 0 7 used⟩

end Buenos.Fs
