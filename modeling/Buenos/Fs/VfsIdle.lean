/-
# Fs.VfsIdle -- VFS calls made one after another

When no other operation is in progress every lock is free, and a VFS call is its
table lookups, one driver call and its table update.  The equations here say so
for each call: `vfsOpen_idle`, `vfsClose_idle` and their siblings.  Later modules
reason about the calls through them and through `Idle.kept_*`, which says that a
call that returns leaves the locks free again.
-/
import Buenos.Fs.Vfs

namespace Buenos.Fs

open Buenos.Lib Buenos.Theory

set_option autoImplicit false

variable {σ : Type}

/-- No lock is taken and no operation is in progress. -/
structure Vfs.Idle (s : Vfs σ) : Prop where
  vfsTable : s.vfsTableSem = 1
  openfileTable : s.openfileTableSem = 1
  vfsOp : s.vfsOpSem = 1
  noOps : s.vfsOps = 0

theorem idle_vfsInit (internal : Nat → σ) : (vfsInit internal).Idle := ⟨rfl, rfl, rfl, rfl⟩

section Locks

/-- The state with the three locks and the operation count at these values. -/
def Vfs.locks (s : Vfs σ) (vfsTable openfileTable vfsOp ops : Int) : Vfs σ :=
  { s with
    vfsTableSem := vfsTable, openfileTableSem := openfileTable, vfsOpSem := vfsOp, vfsOps := ops }

variable {s : Vfs σ} {t o v n : Int}

theorem Vfs.Idle.setFile (idle : s.Idle) (row : Nat) (entry : OpenfileEntry) :
    (s.setFile row entry).Idle := ⟨idle.1, idle.2, idle.3, idle.4⟩

theorem Vfs.Idle.setInternal (idle : s.Idle) (fs : Nat) (d : σ) : (s.setInternal fs d).Idle :=
  ⟨idle.1, idle.2, idle.3, idle.4⟩

@[simp] theorem setInternal_files (fs : Nat) (d : σ) : (s.setInternal fs d).files = s.files := rfl
@[simp] theorem setInternal_vfsUsable (fs : Nat) (d : σ) :
    (s.setInternal fs d).vfsUsable = s.vfsUsable := rfl
@[simp] theorem setFile_vfsUsable (row : Nat) (entry : OpenfileEntry) :
    (s.setFile row entry).vfsUsable = s.vfsUsable := rfl
@[simp] theorem setFile_internal (row : Nat) (entry : OpenfileEntry) :
    (s.setFile row entry).internal = s.internal := rfl

@[simp] theorem locks_files : (s.locks t o v n).files = s.files := rfl
@[simp] theorem locks_filesystems : (s.locks t o v n).filesystems = s.filesystems := rfl
@[simp] theorem locks_vfsUsable : (s.locks t o v n).vfsUsable = s.vfsUsable := rfl
@[simp] theorem locks_internal : (s.locks t o v n).internal = s.internal := rfl
@[simp] theorem locks_setFile (row : Nat) (entry : OpenfileEntry) :
    (s.locks t o v n).setFile row entry = (s.setFile row entry).locks t o v n := rfl
@[simp] theorem locks_setInternal (fs : Nat) (d : σ) :
    (s.locks t o v n).setInternal fs d = (s.setInternal fs d).locks t o v n := rfl
@[simp] theorem openRow_locks (file : Int) : openRow (s.locks t o v n) file = openRow s file := rfl
@[simp] theorem freeRow_locks : freeRow (s.locks t o v n) = freeRow s := rfl
@[simp] theorem vfsGetFilesystem_locks (name : Name) :
    vfsGetFilesystem (s.locks t o v n) name = vfsGetFilesystem s name := rfl

@[simp] theorem semaphoreP_vfsTable :
    semaphoreP .vfsTable (s.locks 1 o v n) = .returned ((), s.locks 0 o v n) := rfl
@[simp] theorem semaphoreV_vfsTable :
    semaphoreV .vfsTable (s.locks 0 o v n) = .returned ((), s.locks 1 o v n) := rfl
@[simp] theorem semaphoreP_openfileTable :
    semaphoreP .openfileTable (s.locks t 1 v n) = .returned ((), s.locks t 0 v n) := rfl
@[simp] theorem semaphoreV_openfileTable :
    semaphoreV .openfileTable (s.locks t 0 v n) = .returned ((), s.locks t 1 v n) := rfl

@[simp] theorem vfsVerifyOpen_locks (file : Int) :
    vfsVerifyOpen file (s.locks t o v n) =
      match openRow s file with
      | some r => .returned (r, s.locks t o v n)
      | none => .stopped .assertion := rfl

theorem vfsStartOp_idle (idle : s.Idle) :
    vfsStartOp s =
      if s.vfsUsable then .returned (VFS_OK, s.locks 1 1 1 1) else .returned (VFS_UNUSABLE, s) := by
  obtain ⟨filesystems, files, vt, ot, vo, vu, ops, usable, internal⟩ := s
  obtain ⟨rfl, rfl, rfl, rfl⟩ := idle
  cases usable <;> rfl

theorem leave_idle {α : Type} (idle : s.Idle) (usable : s.vfsUsable = true) (result : α) :
    leave result (s.locks 1 1 1 1) = .returned (result, s) := by
  obtain ⟨filesystems, files, vt, ot, vo, vu, ops, _, internal⟩ := s
  obtain ⟨rfl, rfl, rfl, rfl⟩ := idle
  cases usable
  rfl

end Locks

/-- Run a driver function, then go on with its result in the state it leaves. -/
def driven {α β : Type} (s : Vfs σ) (fs : Nat) (m : Prog σ α)
    (rest : α → Vfs σ → Outcome (β × Vfs σ)) : Outcome (β × Vfs σ) :=
  match m (s.internal fs) with
  | .returned (a, d) => rest a (s.setInternal fs d)
  | .stopped why => .stopped why

/-- The row after a transfer of `ret` bytes. -/
def Vfs.advanced (s : Vfs σ) (row : Nat) (ret : Int) : Vfs σ :=
  if 0 < ret then
    s.setFile row { s.files row with seekPosition := toInt32 ((s.files row).seekPosition + ret) }
  else s

theorem Vfs.Idle.advanced {s : Vfs σ} (idle : s.Idle) (row : Nat) (ret : Int) :
    (s.advanced row ret).Idle := by
  unfold Vfs.advanced
  split
  · exact idle.setFile _ _
  · exact idle

@[simp] theorem advanced_vfsUsable (s : Vfs σ) (row : Nat) (ret : Int) :
    (s.advanced row ret).vfsUsable = s.vfsUsable := by
  unfold Vfs.advanced
  split <;> rfl

theorem advance_locks {s : Vfs σ} {t v n : Int} (row : Nat) (ret : Int) :
    advance row ret (s.locks t 1 v n) = .returned ((), (s.advanced row ret).locks t 1 v n) := by
  by_cases moved : 0 < ret
  · simp [advance, Vfs.advanced, moved, Prog.bind_apply]
  · simp [advance, Vfs.advanced, moved]

theorem onFs_locks {α : Type} {s : Vfs σ} {t o v n : Int} (fs : Nat) (m : Prog σ α) :
    onFs fs m (s.locks t o v n) = match m (s.internal fs) with
      | .returned (a, d) => .returned (a, (s.setInternal fs d).locks t o v n)
      | .stopped why => .stopped why := by
  rw [onFs, Prog.zoom, locks_internal]
  cases m (s.internal fs) <;> rfl

theorem vfsSeek_idle {s : Vfs σ} (idle : s.Idle) (file seekPosition : Int) :
    vfsSeek file seekPosition s =
      if s.vfsUsable then
        if 0 ≤ seekPosition then
          match openRow s file with
          | some (row, _) =>
              .returned (VFS_OK, s.setFile row { s.files row with seekPosition := seekPosition })
          | none => .stopped .assertion
        else .stopped .assertion
      else .returned (VFS_UNUSABLE, s) := by
  rw [vfsSeek, Prog.bind_apply, vfsStartOp_idle idle]
  cases usable : s.vfsUsable with
  | false => rfl
  | true =>
      by_cases low : 0 ≤ seekPosition
      · cases row : openRow s file with
        | none => simp [Prog.bind_apply, Prog.assert_apply, low, row]
        | some r =>
            have moved := idle.setFile r.1 { s.files r.1 with seekPosition := seekPosition }
            simp [Prog.bind_apply, Prog.assert_apply, low, row, leave_idle moved usable]
      · simp [Prog.bind_apply, Prog.assert_apply, low]

theorem vfsClose_idle {s : Vfs σ} (idle : s.Idle) (ops : FsOps σ) (file : Int) :
    vfsClose ops file s =
      if s.vfsUsable then
        match openRow s file with
        | some (row, fs) => driven s fs (ops.close (s.files row).fileid) fun ret t =>
            .returned (ret, t.setFile row { t.files row with filesystem := none })
        | none => .stopped .assertion
      else .returned (VFS_UNUSABLE, s) := by
  rw [vfsClose, Prog.bind_apply, vfsStartOp_idle idle]
  cases usable : s.vfsUsable with
  | false => rfl
  | true =>
      cases row : openRow s file with
      | none => simp [Prog.bind_apply, row]
      | some r =>
          simp only [driven]
          cases ran : ops.close (s.files r.1).fileid (s.internal r.2) with
          | stopped why => simp [Prog.bind_apply, row, onFs_locks, ran]
          | returned pair =>
              have closed := (idle.setInternal r.2 pair.2).setFile r.1
                { s.files r.1 with filesystem := none }
              simp [Prog.bind_apply, row, onFs_locks, ran, leave_idle closed usable]

theorem vfsRead_idle {s : Vfs σ} (idle : s.Idle) (ops : FsOps σ) (file : Int) (buffer : Bool)
    (bufsize : Int) :
    vfsRead ops file buffer bufsize s =
      if s.vfsUsable then
        match openRow s file with
        | some (row, fs) =>
            if 0 ≤ bufsize && buffer then
              driven s fs (ops.read (s.files row).fileid bufsize (s.files row).seekPosition)
                fun ret t => .returned (ret, t.advanced row ret.1)
            else .stopped .assertion
        | none => .stopped .assertion
      else .returned ((VFS_UNUSABLE, []), s) := by
  rw [vfsRead, Prog.bind_apply, vfsStartOp_idle idle]
  cases usable : s.vfsUsable with
  | false => rfl
  | true =>
      cases row : openRow s file with
      | none => simp [Prog.bind_apply, row]
      | some r =>
          cases args : (decide (0 ≤ bufsize) && buffer) with
          | false => simp [Prog.bind_apply, Prog.assert_apply, row]
          | true =>
              simp only [driven]
              cases ran : ops.read (s.files r.1).fileid bufsize (s.files r.1).seekPosition
                  (s.internal r.2) with
              | stopped why =>
                  simp [Prog.bind_apply, Prog.assert_apply, row, onFs_locks, ran]
              | returned pair =>
                  have moved := (idle.setInternal r.2 pair.2).advanced r.1 pair.1.1
                  simp [Prog.bind_apply, Prog.assert_apply, row, onFs_locks, ran,
                    advance_locks, leave_idle moved (by simpa using usable)]

theorem vfsWrite_idle {s : Vfs σ} (idle : s.Idle) (ops : FsOps σ) (file : Int)
    (buffer : Option (List Byte)) (datasize : Int) :
    vfsWrite ops file buffer datasize s =
      if s.vfsUsable then
        match openRow s file, buffer with
        | some (row, fs), some bytes =>
            if 0 ≤ datasize then
              driven s fs (ops.write (s.files row).fileid bytes datasize (s.files row).seekPosition)
                fun ret t => .returned (ret, t.advanced row ret)
            else .stopped .assertion
        | _, _ => .stopped .assertion
      else .returned (VFS_UNUSABLE, s) := by
  rw [vfsWrite, Prog.bind_apply, vfsStartOp_idle idle]
  cases usable : s.vfsUsable with
  | false => rfl
  | true =>
      cases row : openRow s file with
      | none => simp [Prog.bind_apply, row]
      | some r =>
          cases buffer with
          | none => simp [Prog.bind_apply, row]
          | some bytes =>
              by_cases low : 0 ≤ datasize
              · simp only [driven]
                cases ran : ops.write (s.files r.1).fileid bytes datasize
                    (s.files r.1).seekPosition (s.internal r.2) with
                | stopped why =>
                    simp [Prog.bind_apply, Prog.assert_apply, row, low, onFs_locks, ran]
                | returned pair =>
                    have moved := (idle.setInternal r.2 pair.2).advanced r.1 pair.1
                    simp [Prog.bind_apply, Prog.assert_apply, row, low, onFs_locks, ran,
                      advance_locks, leave_idle moved (by simpa using usable)]
              · simp [Prog.bind_apply, Prog.assert_apply, row, low]

theorem vfsOpen_idle {s : Vfs σ} (idle : s.Idle) (ops : FsOps σ) (pathname : Name) :
    vfsOpen ops pathname s =
      if s.vfsUsable then
        match vfsParsePathname pathname with
        | none => .returned (VFS_ERROR, s)
        | some (volumename, filename) =>
            match freeRow s, vfsGetFilesystem s volumename with
            | none, _ => .returned (VFS_LIMIT, s)
            | some _, none => .returned (VFS_NO_SUCH_FS, s)
            | some file, some fs =>
                driven (s.setFile file { s.files file with filesystem := some fs }) fs
                  (ops.openFile filename) fun fileid t =>
                    if fileid < 0 then
                      .returned (fileid, t.setFile file { t.files file with filesystem := none })
                    else
                      .returned (file, t.setFile file
                        { t.files file with fileid := fileid, seekPosition := 0 })
      else .returned (VFS_UNUSABLE, s) := by
  rw [vfsOpen, Prog.bind_apply, vfsStartOp_idle idle]
  cases usable : s.vfsUsable with
  | false => rfl
  | true =>
      cases parsed : vfsParsePathname pathname with
      | none => simp [leave_idle idle usable]
      | some names =>
          cases row : freeRow s with
          | none => simp [Prog.bind_apply, row, leave_idle idle usable]
          | some file =>
              cases volume : vfsGetFilesystem s names.1 with
              | none => simp [Prog.bind_apply, row, volume, leave_idle idle usable]
              | some fs =>
                  simp only [driven]
                  have reserved := idle.setFile file { s.files file with filesystem := some fs }
                  cases ran : ops.openFile names.2 (s.internal fs) with
                  | stopped why => simp [Prog.bind_apply, row, volume, onFs_locks, ran]
                  | returned pair =>
                      have opened := reserved.setInternal fs pair.2
                      by_cases failed : pair.1 < 0
                      · simp [Prog.bind_apply, row, volume, onFs_locks, ran, failed,
                          leave_idle (opened.setFile _ _) usable]
                      · simp [Prog.bind_apply, row, volume, onFs_locks, ran, failed,
                          leave_idle (opened.setFile _ _) usable]

theorem onVolume_idle {α : Type} {s : Vfs σ} (idle : s.Idle) (usable : s.vfsUsable = true)
    (volumename : Name) (failed : Int → α) (m : Prog σ α) :
    onVolume volumename failed m (s.locks 1 1 1 1) =
      match vfsGetFilesystem s volumename with
      | none => .returned (failed VFS_NO_SUCH_FS, s)
      | some fs => driven s fs m fun ret t => .returned (ret, t) := by
  cases volume : vfsGetFilesystem s volumename with
  | none => simp [onVolume, Prog.bind_apply, volume, leave_idle idle usable]
  | some fs =>
      simp only [driven]
      cases ran : m (s.internal fs) with
      | stopped why => simp [onVolume, Prog.bind_apply, volume, onFs_locks, ran]
      | returned pair =>
          simp [onVolume, Prog.bind_apply, volume, onFs_locks, ran,
            leave_idle (idle.setInternal fs pair.2) (by simpa using usable)]

theorem onPath_idle {α : Type} {s : Vfs σ} (idle : s.Idle) (pathname : Name) (failed : Int → α)
    (m : Name → Prog σ α) :
    onPath pathname failed m s =
      if s.vfsUsable then
        match vfsParsePathname pathname with
        | none => .returned (failed VFS_ERROR, s)
        | some (volumename, filename) =>
            match vfsGetFilesystem s volumename with
            | none => .returned (failed VFS_NO_SUCH_FS, s)
            | some fs => driven s fs (m filename) fun ret t => .returned (ret, t)
      else .returned (failed VFS_UNUSABLE, s) := by
  rw [onPath, Prog.bind_apply, vfsStartOp_idle idle]
  cases usable : s.vfsUsable with
  | false => rfl
  | true =>
      cases parsed : vfsParsePathname pathname with
      | none => simp [leave_idle idle usable]
      | some names => simp [onVolume_idle idle usable]

theorem vfsCreate_apply {s : Vfs σ} (ops : FsOps σ) (pathname : Name) (size : Int) :
    vfsCreate ops pathname size s =
      if 0 ≤ size then onPath pathname id (fun filename => ops.create filename size) s
      else .stopped .assertion := by
  by_cases low : 0 ≤ size <;> simp [vfsCreate, Prog.bind_apply, Prog.assert_apply, low]

/-! ## What a call leaves in the open-file table -/

/-- A call keeps the locks free, and the open-file table ends up in a `Rows` relation
to the table before. -/
structure Vfs.Left (s t : Vfs σ) (Rows : (Nat → OpenfileEntry) → Prop) : Prop where
  idle : t.Idle
  usable : t.vfsUsable = s.vfsUsable
  rows : Rows t.files

/-- The same rows are in use, on the same filesystems. -/
def SameRows (s : Vfs σ) (files : Nat → OpenfileEntry) : Prop :=
  ∀ row, (files row).filesystem = (s.files row).filesystem

theorem Vfs.Left.sameRows {s t : Vfs σ} (left : s.Left t (· = s.files)) :
    s.Left t (SameRows s) :=
  ⟨left.idle, left.usable, fun _ => by rw [left.rows]⟩

theorem driven_returned {α β : Type} {s t : Vfs σ} {fs : Nat} {m : Prog σ α}
    {rest : α → Vfs σ → Outcome (β × Vfs σ)} {b : β}
    (ran : driven s fs m rest = .returned (b, t)) :
    ∃ a d, m (s.internal fs) = .returned (a, d) ∧
      rest a (s.setInternal fs d) = .returned (b, t) := by
  unfold driven at ran
  cases inner : m (s.internal fs) with
  | stopped why => simp [inner] at ran
  | returned pair => exact ⟨pair.1, pair.2, rfl, by simpa [inner] using ran⟩

theorem setFile_sameRows {s : Vfs σ} (row : Nat) (entry : OpenfileEntry)
    (same : entry.filesystem = (s.files row).filesystem) :
    SameRows s (s.setFile row entry).files := by
  intro other
  by_cases here : other = row
  · subst here; simpa [Vfs.setFile] using same
  · simp [Vfs.setFile, here]

theorem advanced_sameRows (s : Vfs σ) (row : Nat) (ret : Int) :
    SameRows s (s.advanced row ret).files := by
  unfold Vfs.advanced
  split
  · exact setFile_sameRows row _ rfl
  · exact fun _ => rfl

section Left

variable {s : Vfs σ}

theorem vfsSeek_left (idle : s.Idle) (file seekPosition : Int) :
    (vfsSeek file seekPosition).Keeps s fun _ t => s.Left t (SameRows s) := by
  intro ret t ran
  rw [vfsSeek_idle idle] at ran
  split at ran
  · split at ran
    · split at ran
      · rename_i row _ _
        cases ran
        exact ⟨idle.setFile _ _, rfl, setFile_sameRows row _ rfl⟩
      · cases ran
    · cases ran
  · cases ran
    exact ⟨idle, rfl, fun _ => rfl⟩

theorem vfsRead_left (idle : s.Idle) (ops : FsOps σ) (file : Int) (buffer : Bool)
    (bufsize : Int) :
    (vfsRead ops file buffer bufsize).Keeps s fun _ t => s.Left t (SameRows s) := by
  intro ret t ran
  rw [vfsRead_idle idle] at ran
  split at ran
  · split at ran
    · split at ran
      · obtain ⟨a, d, -, ran⟩ := driven_returned ran
        cases ran
        exact ⟨(idle.setInternal _ d).advanced _ _, by simp, advanced_sameRows (s.setInternal _ d) _ _⟩
      · cases ran
    · cases ran
  · cases ran
    exact ⟨idle, rfl, fun _ => rfl⟩

theorem vfsWrite_left (idle : s.Idle) (ops : FsOps σ) (file : Int) (buffer : Option (List Byte))
    (datasize : Int) :
    (vfsWrite ops file buffer datasize).Keeps s fun _ t => s.Left t (SameRows s) := by
  intro ret t ran
  rw [vfsWrite_idle idle] at ran
  split at ran
  · split at ran
    · split at ran
      · obtain ⟨a, d, -, ran⟩ := driven_returned ran
        cases ran
        exact ⟨(idle.setInternal _ d).advanced _ _, by simp, advanced_sameRows (s.setInternal _ d) _ _⟩
      · cases ran
    · cases ran
  · cases ran
    exact ⟨idle, rfl, fun _ => rfl⟩

/-- A call on a path leaves the open-file table alone. -/
theorem onPath_left {α : Type} (idle : s.Idle) (pathname : Name) (failed : Int → α)
    (m : Name → Prog σ α) :
    (onPath pathname failed m).Keeps s fun _ t => s.Left t (· = s.files) := by
  intro ret t ran
  rw [onPath_idle idle] at ran
  split at ran
  · split at ran
    · cases ran
      exact ⟨idle, rfl, rfl⟩
    · split at ran
      · cases ran
        exact ⟨idle, rfl, rfl⟩
      · obtain ⟨a, d, -, ran⟩ := driven_returned ran
        cases ran
        exact ⟨idle.setInternal _ d, rfl, rfl⟩
  · cases ran
    exact ⟨idle, rfl, rfl⟩

theorem vfsCreate_left (idle : s.Idle) (ops : FsOps σ) (pathname : Name) (size : Int) :
    (vfsCreate ops pathname size).Keeps s fun _ t => s.Left t (· = s.files) := by
  intro ret t ran
  rw [vfsCreate_apply] at ran
  split at ran
  · exact onPath_left idle _ _ _ ret t ran
  · cases ran

/-- A close that finds the VFS usable frees the row it names, which was in use. -/
theorem vfsClose_left (idle : s.Idle) (ops : FsOps σ) (file : Int) :
    (vfsClose ops file).Keeps s fun ret t => s.Left t fun files =>
      (s.vfsUsable = false ∧ ret = VFS_UNUSABLE ∧ files = s.files) ∨
        ∃ row fs, openRow s file = some (row, fs) ∧ (files row).filesystem = none ∧
          ∀ other, other ≠ row → files other = s.files other := by
  intro ret t ran
  rw [vfsClose_idle idle] at ran
  split at ran
  · split at ran
    · rename_i row fs found
      obtain ⟨a, d, -, ran⟩ := driven_returned ran
      cases ran
      refine ⟨(idle.setInternal _ d).setFile _ _, rfl, Or.inr ⟨row, fs, found, ?_, ?_⟩⟩
      · simp [Vfs.setFile]
      · intro other elsewhere
        simp [Vfs.setFile, elsewhere]
    · cases ran
  · rename_i unusable
    cases ran
    exact ⟨idle, rfl, Or.inl ⟨by simpa using unusable, rfl, rfl⟩⟩

/-- An open either fails and leaves the rows as they were, or takes a free row. -/
theorem vfsOpen_left (idle : s.Idle) (ops : FsOps σ) (pathname : Name) :
    (vfsOpen ops pathname).Keeps s fun ret t => s.Left t fun files =>
      (ret < 0 ∧ SameRows s files) ∨
        ∃ row : Nat, ret = row ∧ row < CONFIG_MAX_OPEN_FILES ∧ (s.files row).filesystem = none ∧
          (files row).filesystem ≠ none ∧ ∀ other, other ≠ row → files other = s.files other := by
  intro ret t ran
  rw [vfsOpen_idle idle] at ran
  split at ran
  · split at ran
    · cases ran
      exact ⟨idle, rfl, Or.inl ⟨by decide, fun _ => rfl⟩⟩
    · split at ran
      · cases ran
        exact ⟨idle, rfl, Or.inl ⟨by decide, fun _ => rfl⟩⟩
      · cases ran
        exact ⟨idle, rfl, Or.inl ⟨by decide, fun _ => rfl⟩⟩
      · rename_i row fs free _
        obtain ⟨bound, unused⟩ := freeRow_some free
        obtain ⟨fileid, d, -, ran⟩ := driven_returned ran
        have opened := ((idle.setFile row { s.files row with filesystem := some fs }).setInternal fs d)
        split at ran
        · rename_i negative
          cases ran
          refine ⟨opened.setFile _ _, rfl, Or.inl ⟨negative, fun other => ?_⟩⟩
          by_cases here : other = row
          · subst here; simpa [Vfs.setFile, Vfs.setInternal] using unused.symm
          · simp [Vfs.setFile, Vfs.setInternal, here]
        · cases ran
          refine ⟨opened.setFile _ _, rfl, Or.inr ⟨row, rfl, bound, unused, ?_, ?_⟩⟩
          · simp [Vfs.setFile, Vfs.setInternal]
          · intro other elsewhere
            simp [Vfs.setFile, Vfs.setInternal, elsewhere]
  · cases ran
    exact ⟨idle, rfl, Or.inl ⟨by decide, fun _ => rfl⟩⟩

/-- The name parses, a row is free, the volume is mounted and its driver finds the file. -/
def CanOpen (ops : FsOps σ) (s : Vfs σ) (pathname : Name) : Prop :=
  s.vfsUsable = true ∧ ∃ volumename filename row fs fileid d,
    vfsParsePathname pathname = some (volumename, filename) ∧ freeRow s = some row ∧
      vfsGetFilesystem s volumename = some fs ∧
      ops.openFile filename (s.internal fs) = .returned (fileid, d) ∧ 0 ≤ fileid

theorem canOpen_of_vfsOpen (idle : s.Idle) (ops : FsOps σ) (pathname : Name) :
    (vfsOpen ops pathname).Keeps s fun ret _ => 0 ≤ ret → CanOpen ops s pathname := by
  intro ret t ran success
  rw [vfsOpen_idle idle] at ran
  split at ran
  · rename_i usable
    split at ran
    · cases ran
      exact absurd success (by decide)
    · rename_i volumename filename parsed
      split at ran
      · cases ran
        exact absurd success (by decide)
      · cases ran
        exact absurd success (by decide)
      · rename_i row fs free volume
        obtain ⟨fileid, d, asked, ran⟩ := driven_returned ran
        split at ran
        · cases ran
          omega
        · exact ⟨usable, volumename, filename, row, fs, fileid, d, parsed, free, volume, asked,
            by omega⟩
  · cases ran
    exact absurd success (by decide)

end Left

/-! ## Shutting down -/

theorem unmountRows_locks (ops : FsOps σ) {t o v n : Int} (rows : List Nat) (s : Vfs σ) :
    (unmountRows ops rows).Keeps (s.locks t o v n) fun _ u =>
      ∃ r : Vfs σ, u = r.locks t o v n ∧ r.files = s.files ∧ r.vfsUsable = s.vfsUsable := by
  induction rows generalizing s with
  | nil =>
      intro _ u ran
      cases ran
      exact ⟨s, rfl, rfl, rfl⟩
  | cons row rows ih =>
      intro a u ran
      simp only [unmountRows, Prog.bind_gets_apply, locks_filesystems] at ran
      cases mounted : (s.filesystems row).filesystem with
      | none =>
          rw [mounted] at ran
          exact ih s a u ran
      | some fs =>
          rw [mounted] at ran
          obtain ⟨_, w, first, ran⟩ := Prog.bind_returned.1 ran
          obtain ⟨d, _, rfl⟩ := Prog.zoom_returned.1 first
          rw [Prog.bind_modify_apply] at ran
          exact ih ((s.setInternal fs d).setFilesystem row
            { (s.setInternal fs d).filesystems row with filesystem := none }) a u ran

/-- The forced unmount leaves the open-file table as it was. -/
theorem vfsDeinit_idle {s : Vfs σ} (idle : s.Idle) (ops : FsOps σ) :
    (vfsDeinit ops).Keeps s fun _ u =>
      u.Idle ∧ u.files = s.files ∧ u.vfsUsable = false := by
  obtain ⟨filesystems, files, vt, ot, vo, vu, n, usable, internal⟩ := s
  obtain ⟨rfl, rfl, rfl, rfl⟩ := idle
  let closed : Vfs σ := ⟨filesystems, files, 1, 1, 1, vu, 0, false, internal⟩
  have locked : vfsDeinit ops ⟨filesystems, files, 1, 1, 1, vu, 0, usable, internal⟩ =
      (unmountRows ops (List.range CONFIG_MAX_FILESYSTEMS) >>= fun _ => do
        semaphoreV .openfileTable
        semaphoreV .vfsTable
        semaphoreV .vfsOp) (closed.locks 0 0 0 0) := rfl
  intro _ u ran
  rw [locked] at ran
  obtain ⟨_, w, first, ran⟩ := Prog.bind_returned.1 ran
  obtain ⟨r, rfl, same, unusable⟩ := unmountRows_locks ops _ closed _ _ first
  cases ran
  exact ⟨⟨rfl, rfl, rfl, rfl⟩, same, unusable⟩

end Buenos.Fs
