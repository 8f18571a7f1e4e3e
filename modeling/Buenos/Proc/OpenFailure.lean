/-
# Proc.OpenFailure -- what a failed open leaves behind

`syscall_open` can fail in five places: the VFS is shut down, the path is not one, the
open-file table is full, the volume is not mounted, the driver has no such file.  Each of
them leaves the tables as they were.  The sixth place is its own: the process's list is
full, and the open that `vfs_open` completed has to be undone.  It is not: the call closes
the row three below the one it was given (`syscallOpen_noTrace_iff`).
-/
import Buenos.Proc.OpenFiles

namespace Buenos.Proc.Syscall

open Buenos.Lib Buenos.Fs Buenos.Theory

set_option autoImplicit false

variable {σ τ : Type}

/-! ## Opening in the VFS -/

section Vfs

variable {s : Vfs σ} (idle : s.Idle) (ops : FsOps σ) (pathname : Name)

/-- The driver that the path leads to stops in its own open function. -/
def DriverStops (s : Vfs σ) (why : Stop) : Prop :=
  ∃ volumename filename fs, vfsParsePathname pathname = some (volumename, filename) ∧
    vfsGetFilesystem s volumename = some fs ∧ ops.openFile filename (s.internal fs) = .stopped why

include idle

/-- An open that fails leaves the rows, the free ones among them. -/
theorem vfsOpen_failed :
    (vfsOpen ops pathname).Keeps s fun ret t => ret < 0 → t.files = s.files := by
  intro ret t ran negative
  rw [vfsOpen_idle idle] at ran
  split at ran
  · split at ran
    · cases ran
      rfl
    · split at ran
      · cases ran
        rfl
      · cases ran
        rfl
      · rename_i row fs free _
        obtain ⟨-, unused⟩ := freeRow_some free
        obtain ⟨fileid, d, -, ran⟩ := driven_returned ran
        split at ran
        · cases ran
          funext other
          by_cases here : other = row
          · subst here
            simp only [Vfs.setFile, Vfs.setInternal, Function.update_self, ← unused]
          · simp [Vfs.setFile, Vfs.setInternal, here]
        · cases ran
          omega
  · cases ran
    rfl

/-- Only the driver can stop an open. -/
theorem vfsOpen_stops {why : Stop} (ran : vfsOpen ops pathname s = .stopped why) :
    DriverStops ops pathname s why := by
  rw [vfsOpen_idle idle] at ran
  split at ran
  · split at ran
    · cases ran
    · rename_i volumename filename parsed
      split at ran
      · cases ran
      · cases ran
      · rename_i row fs free volume
        unfold driven at ran
        split at ran
        · dsimp only at ran
          split at ran <;> cases ran
        · rename_i asked
          cases ran
          exact ⟨volumename, filename, fs, parsed, volume, asked⟩
  · cases ran

/-- An open that can be made is made. -/
theorem vfsOpen_of_canOpen (able : CanOpen ops s pathname) :
    ∃ (row : Nat) (t : Vfs σ), vfsOpen ops pathname s = .returned ((row : Int), t) := by
  obtain ⟨usable, volumename, filename, row, fs, fileid, d, parsed, free, volume, asked,
    positive⟩ := able
  have ran := vfsOpen_idle idle ops pathname
  rw [if_pos usable] at ran
  simp only [parsed, free, volume, driven, setFile_internal, asked,
    if_neg (Int.not_lt.2 positive)] at ran
  exact ⟨row, _, ran⟩

end Vfs

/-! ## The system call -/

section Call

variable (ops : FsOps σ) {k : Kernel σ τ} {cur : Int}

/-- A call that fails leaves the process table and the open-file table as they were, and no
call fails an assertion, unless the driver does. -/
structure LeavesNoTrace (k : Kernel σ τ) (cur : Int) (filename : Name) : Prop where
  failed : (syscallOpen ops cur filename : Prog (Kernel σ τ) Int).Keeps k fun ret k' => ret < 0 →
    k'.table = k.table ∧ k'.vfs.files = k.vfs.files
  stops : ∀ why, syscallOpen ops cur filename k = .stopped why →
    DriverStops ops filename k.vfs why

variable {ops} {filename : Name}

theorem noTrace_of_failed (idle : k.vfs.Idle) {ret : Int} {vfs : Vfs σ}
    (called : vfsOpen ops filename k.vfs = .returned (ret, vfs)) (negative : ret < 0) :
    LeavesNoTrace ops k cur filename := by
  have ran : syscallOpen ops cur filename k = .returned (ret, { k with vfs := vfs }) := by
    rw [syscallOpen, Prog.bind_of_returned (onVfs_of_returned called),
      if_neg (Int.not_le.2 negative)]
    rfl
  constructor
  · intro ret' k' ran'
    rw [ran] at ran'
    cases ran'
    exact fun _ => ⟨rfl, vfsOpen_failed idle ops filename _ _ called negative⟩
  · intro why ran'
    rw [ran] at ran'
    cases ran'

theorem noTrace_of_room (running : Running k.table cur) {row : Nat} {vfs : Vfs σ}
    (called : vfsOpen ops filename k.vfs = .returned ((row : Int), vfs))
    (room : (k.table cur).cFiles < PROCESS_MAX_FILES) : LeavesNoTrace ops k cur filename := by
  have added := onTable_of_returned (k := { k with vfs := vfs })
    (processAddFile_running running room ((row : Int) + 3))
  have ran : syscallOpen ops cur filename k =
      .returned ((row : Int) + 3, ⟨listFile k.table cur (row + 3), vfs, k.tty⟩) := by
    rw [syscallOpen, Prog.bind_of_returned (onVfs_of_returned called),
      if_pos (Int.natCast_nonneg row), Prog.bind_of_returned added]
    rfl
  constructor
  · intro ret' k' ran'
    rw [ran] at ran'
    cases ran'
    intro negative
    omega
  · intro why ran'
    rw [ran] at ran'
    cases ran'

/-- **The open is not undone**: its row stays in use. -/
theorem trace_of_full (idle : k.vfs.Idle) (able : CanOpen ops k.vfs filename)
    (full : ¬ (k.table cur).cFiles < PROCESS_MAX_FILES) : ¬ LeavesNoTrace ops k cur filename := by
  intro noTrace
  obtain ⟨row, vfs, called⟩ := vfsOpen_of_canOpen idle ops filename able
  have refused : processAddFile cur ((row : Int) + 3) k.table = .returned (-1, k.table) := by
    rw [processAddFile, if_neg (by simp [full])]
  have step : syscallOpen ops cur filename k =
      (do let _ ← onVfs (vfsClose ops ((row : Int) - 3)); pure (-1) : Prog (Kernel σ τ) Int)
        { k with vfs := vfs } := by
    rw [syscallOpen, Prog.bind_of_returned (onVfs_of_returned called),
      if_pos (Int.natCast_nonneg row),
      Prog.bind_of_returned (onTable_of_returned (k := { k with vfs := vfs }) refused)]
    rfl
  obtain ⟨idle', -, rows⟩ := vfsOpen_left idle ops filename _ _ called
  rcases rows with ⟨negative, -⟩ | ⟨row', same, -, unused, taken, -⟩
  · omega
  obtain rfl : row' = row := by omega
  cases closed : vfsClose ops ((row' : Int) - 3) vfs with
  | stopped why =>
      have stopped : onVfs (vfsClose ops ((row' : Int) - 3)) { k with vfs := vfs } =
          .stopped why := by
        rw [onVfs, Prog.zoom, closed]
      rw [Prog.bind_of_stopped stopped] at step
      obtain ⟨volumename, filename', fs, parsed, volume, asked⟩ := noTrace.stops why step
      obtain ⟨-, volumename', filename'', _, fs', _, _, parsed', -, volume', asked', -⟩ := able
      rw [parsed] at parsed'
      cases parsed'
      rw [volume] at volume'
      cases volume'
      rw [asked] at asked'
      cases asked'
  | returned pair =>
      obtain ⟨ret, vfs'⟩ := pair
      rw [Prog.bind_of_returned (onVfs_of_returned (k := { k with vfs := vfs }) closed)] at step
      obtain ⟨-, files⟩ := noTrace.failed _ _ step (by decide)
      obtain ⟨-, -, left⟩ := vfsClose_left idle' ops _ _ _ closed
      apply taken
      rcases left with ⟨-, -, kept⟩ | ⟨other, fs, opened, -, others⟩
      · rw [← kept, files]
        exact unused
      · obtain ⟨place, -, -⟩ := openRow_some opened
        rw [← others row' (by omega), files]
        exact unused

theorem syscallOpen_noTrace_iff (idle : k.vfs.Idle) (running : Running k.table cur) :
    LeavesNoTrace ops k cur filename ↔
      (k.table cur).cFiles < PROCESS_MAX_FILES ∨ ¬ CanOpen ops k.vfs filename := by
  constructor
  · intro noTrace
    by_contra neither
    obtain ⟨full, able⟩ := not_or.1 neither
    exact trace_of_full idle (not_not.1 able) full noTrace
  · intro room
    cases called : vfsOpen ops filename k.vfs with
    | stopped why =>
        have ran : syscallOpen ops cur filename k = .stopped why := by
          rw [syscallOpen, Prog.bind_of_stopped]
          rw [onVfs, Prog.zoom, called]
        constructor
        · intro ret k' ran'
          rw [ran] at ran'
          cases ran'
        · intro why' ran'
          rw [ran] at ran'
          cases ran'
          exact vfsOpen_stops idle ops filename called
    | returned pair =>
        obtain ⟨ret, vfs⟩ := pair
        by_cases negative : ret < 0
        · exact noTrace_of_failed idle called negative
        · obtain ⟨-, -, rows⟩ := vfsOpen_left idle ops filename _ _ called
          rcases rows with ⟨low, -⟩ | ⟨row, rfl, -⟩
          · exact absurd low negative
          · have able := canOpen_of_vfsOpen idle ops filename _ _ called (Int.not_lt.1 negative)
            exact noTrace_of_room running called (room.resolve_right fun unable => unable able)

end Call

/-- **Failed opens.**  In every reachable state a call leaves no trace when it fails, and
fails no assertion, exactly when the caller's list has room or the file cannot be opened. -/
theorem failed_open_iff (ops : FsOps σ) (gcd : Gcd τ) {w : World σ τ}
    (reached : (system ops gcd).Reachable w) {cur : Int} (running : Running w.kernel.table cur)
    (filename : Name) :
    LeavesNoTrace ops w.kernel cur filename ↔
      (w.kernel.table cur).cFiles < PROCESS_MAX_FILES ∨ ¬ CanOpen ops w.kernel.vfs filename :=
  syscallOpen_noTrace_iff (idle_reachable ops gcd reached) running

/-! ## A full list -/

/-- Process 1 opens ten files. -/
def opensTen : List Event :=
  [.spawnFirst [], .call 0 (.exec [])] ++ List.replicate 10 (.call 1 (.openFile fileOnA))

/-- A call of process 1 fails, row 7 has been closed and row 10 is in use. -/
def eleventhFails (w : World Unit Unit) : Bool :=
  match syscallOpen emptyFiles 1 fileOnA w.kernel with
  | .returned (ret, k) =>
      ret == -1 && rowUsed w.kernel 7 && !rowUsed k 7 && !rowUsed w.kernel 10 && rowUsed k 10
  | .stopped _ => false

set_option maxRecDepth 4000 in
/-- The eleventh open takes row 10 for good and closes row 7, descriptor 10 of the same
process. -/
theorem eleventh_open_leaves_trace :
    ∃ w, (system emptyFiles silentTty).Reachable w ∧ Running w.kernel.table 1 ∧
      (∃ k, syscallOpen emptyFiles 1 fileOnA w.kernel = .returned (-1, k) ∧
        rowUsed w.kernel 7 = true ∧ rowUsed k 7 = false ∧ rowUsed w.kernel 10 = false ∧
        rowUsed k 10 = true) ∧
      ¬ LeavesNoTrace emptyFiles w.kernel 1 fileOnA := by
  have run : ((system emptyFiles silentTty).exec mounted opensTen).any
      (fun w => decide (Running w.kernel.table 1) && eleventhFails w) = true := by
    decide +kernel
  obtain ⟨w, ran, checked⟩ := (Option.any_eq_true _ _).1 run
  obtain ⟨running, fails⟩ := Bool.and_eq_true_iff.1 checked
  refine ⟨w, (System.Reachable.start mounted_boot).exec ran, of_decide_eq_true running, ?_⟩
  unfold eleventhFails at fails
  split at fails
  · rename_i ret k called
    simp only [Bool.and_eq_true, beq_iff_eq, Bool.not_eq_true'] at fails
    obtain ⟨⟨⟨⟨rfl, open7⟩, closed7⟩, free10⟩, taken10⟩ := fails
    refine ⟨⟨k, called, open7, closed7, free10, taken10⟩, fun noTrace => ?_⟩
    obtain ⟨-, files⟩ := noTrace.failed _ _ called (by decide)
    rw [rowUsed, files, ← rowUsed, free10] at taken10
    cases taken10
  · cases fails

set_option maxRecDepth 4000 in
/-- Process 1 has one file, and room for more. -/
theorem failed_open_iff_child :
    ∃ w, (system emptyFiles silentTty).exec mounted openInChild = some w ∧
      LeavesNoTrace emptyFiles w.kernel 1 fileOnA := by
  obtain ⟨w, ran⟩ : ∃ w, (system emptyFiles silentTty).exec mounted openInChild = some w :=
    ⟨_, rfl⟩
  have reached := (System.Reachable.start mounted_boot).exec ran
  have exact := @failed_open_iff _ _ emptyFiles silentTty _ reached 1
  cases ran
  exact ⟨_, rfl, (exact (by decide) fileOnA).2 (.inl (by decide))⟩

end Buenos.Proc.Syscall
