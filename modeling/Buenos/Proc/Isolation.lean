/-
# Proc.Isolation -- calls with somebody else's descriptor

A call is foreign when it names a descriptor above 2 that is not in the caller's
own list.  `Isolated` says that such a call does no harm: it returns a negative
value and leaves the open-file table and the other processes' lists alone.

Two of the four calls check the list.  `syscall_seek` does not look at it, and
`process_rem_file` reports success for a descriptor it did not find, so
`syscall_close` goes on to close the row of another process.
-/
import Buenos.Proc.Syscall

namespace Buenos.Proc.Syscall

open Buenos.Lib Buenos.Fs Buenos.Theory

set_option autoImplicit false

variable {σ τ : Type}

/-- The call names a descriptor above 2 that the caller's list does not hold. -/
def Foreign (table : ProcessTable) (cur : Int) : Call → Prop
  | .read fd _ _ => 2 < fd.toNat ∧ fd.toInt ∉ (table cur).fileList
  | .write fd _ _ => 2 < fd.toNat ∧ fd.toInt ∉ (table cur).fileList
  | .seek fd _ => 2 < fd ∧ fd ∉ (table cur).fileList
  | .close fd => 2 < fd ∧ fd ∉ (table cur).fileList
  | _ => False

instance (table : ProcessTable) (cur : Int) (c : Call) : Decidable (Foreign table cur c) := by
  cases c <;> unfold Foreign <;> infer_instance

/-- The calls that look the descriptor up in the caller's list. -/
def Call.checksList : Call → Bool
  | .read _ _ _ | .write _ _ _ => true
  | _ => false

/-- The call returns a negative value, no row of the open-file table changes, and no
other process's list does. -/
def Isolated (ops : FsOps σ) (gcd : Gcd τ) (k : Kernel σ τ) (cur : Int) (c : Call) : Prop :=
  (syscallHandle ops gcd cur c).Ends k fun ret k' =>
    ret < 0 ∧ k'.vfs.files = k.vfs.files ∧
      ∀ p, p ≠ cur → (k'.table p).fileList = (k.table p).fileList

section Calls

variable (ops : FsOps σ) (gcd : Gcd τ) {k : Kernel σ τ} {cur : Int}

theorem processCheckFile_absent {table : ProcessTable} {fd : Int}
    (absent : fd ∉ (table cur).fileList) : processCheckFile cur fd table = .returned (-1, table) := by
  rw [processCheckFile_apply, if_neg fun held => absent held.2]

/-- The refusal of a descriptor that is not in the list. -/
theorem checked_absent {α : Type} {fd : Int} (absent : fd ∉ (k.table cur).fileList)
    (m : Prog (Kernel σ τ) α) (refused : α) :
    (do let found ← onTable (processCheckFile cur fd)
        if found = 0 then m else pure refused : Prog (Kernel σ τ) α) k =
      .returned (refused, k) := by
  rw [Prog.bind_of_returned (onTable_of_returned (processCheckFile_absent absent))]
  rfl

theorem isolated_of_returned {c : Call} (ret : Int)
    (ran : syscallHandle ops gcd cur c k = .returned (ret, k)) (negative : ret < 0) :
    Isolated ops gcd k cur c :=
  ⟨ret, k, ran, negative, rfl, fun _ _ => rfl⟩

theorem read_isolated {fd : BitVec 32} {s : Bool} {len : Int}
    (foreign : Foreign k.table cur (.read fd s len)) :
    Isolated ops gcd k cur (.read fd s len) := by
  refine isolated_of_returned ops gcd VFS_NOT_OPEN ?_ (by decide)
  have first : fd.toNat ≠ FILEHANDLE_STDIN := by
    have := foreign.1
    simp only [FILEHANDLE_STDIN]
    omega
  have refused : syscallRead ops gcd cur fd s len k = .returned ((VFS_NOT_OPEN, []), k) := by
    rw [syscallRead, if_neg first, if_pos foreign.1]
    exact checked_absent foreign.2 _ _
  exact Prog.bind_of_returned refused

theorem write_isolated {fd : BitVec 32} {s : Option (List Byte)} {len : Int}
    (foreign : Foreign k.table cur (.write fd s len)) :
    Isolated ops gcd k cur (.write fd s len) := by
  refine isolated_of_returned ops gcd VFS_NOT_OPEN ?_ (by decide)
  have first : ¬ (fd.toNat = FILEHANDLE_STDOUT ∨ fd.toNat = FILEHANDLE_STDERR) := by
    have := foreign.1
    simp only [FILEHANDLE_STDOUT, FILEHANDLE_STDERR]
    omega
  show syscallWrite ops gcd cur fd s len k = _
  rw [syscallWrite, if_neg first, if_pos foreign.1]
  exact checked_absent foreign.2 _ _

/-- A seek never fails on a usable VFS: it moves the row or it does not return. -/
theorem seek_isolated_iff (idle : k.vfs.Idle) {fd offset : Int}
    (foreign : Foreign k.table cur (.seek fd offset)) :
    Isolated ops gcd k cur (.seek fd offset) ↔ k.vfs.vfsUsable = false := by
  have handled : syscallHandle ops gcd cur (.seek fd offset) k =
      (onVfs (vfsSeek (fd - 3) offset) : Prog (Kernel σ τ) Int) k := by
    show syscallSeek fd offset k = _
    rw [syscallSeek, if_pos foreign.1]
  constructor
  · rintro ⟨ret, k', ran, negative, -⟩
    rw [handled] at ran
    obtain ⟨vfs, sought, rfl⟩ := Prog.zoom_returned.1 ran
    rw [vfsSeek_idle idle] at sought
    cases usable : k.vfs.vfsUsable with
    | false => rfl
    | true =>
        rw [usable, if_pos rfl] at sought
        split at sought
        · split at sought
          · cases sought
            exact absurd negative (by decide)
          · cases sought
        · cases sought
  · intro unusable
    refine isolated_of_returned ops gcd VFS_UNUSABLE ?_ (by decide)
    rw [handled]
    exact onVfs_of_returned (by rw [vfsSeek_idle idle, unusable]; rfl)

theorem processRemFile_absent {table : ProcessTable} (running : Running table cur) {fd : Int}
    (absent : fd ∉ (table cur).fileList) : processRemFile cur fd table = .returned (0, table) := by
  have usable : fileListUsable table cur = true := by
    simp only [fileListUsable, running.2.2]
    have := running.1
    have := running.2.1
    simp
    omega
  have same : remLoop fd (table cur).cFiles 0 (table cur) = table cur := by
    refine remLoop_absent _ _ _ fun j _ inside listed => absent ?_
    exact mem_fileList.2 ⟨j, inside, listed⟩
  rw [processRemFile, if_pos usable, same, Function.update_eq_self]

/-- A close frees the row it names, whoever opened it. -/
theorem close_isolated_iff (idle : k.vfs.Idle) (running : Running k.table cur) {fd : Int}
    (foreign : Foreign k.table cur (.close fd)) :
    Isolated ops gcd k cur (.close fd) ↔ k.vfs.vfsUsable = false := by
  have handled : syscallHandle ops gcd cur (.close fd) k =
      (onVfs (vfsClose ops (fd - 3)) : Prog (Kernel σ τ) Int) k := by
    show syscallClose ops cur fd k = _
    rw [syscallClose, if_pos foreign.1,
      Prog.bind_of_returned (onTable_of_returned (processRemFile_absent running foreign.2))]
    rfl
  constructor
  · rintro ⟨ret, k', ran, -, same, -⟩
    rw [handled] at ran
    obtain ⟨vfs, closed, rfl⟩ := Prog.zoom_returned.1 ran
    rcases (vfsClose_left idle ops _ _ _ closed).rows with ⟨unusable, -⟩ | ⟨row, fs, found, freed, -⟩
    · exact unusable
    · obtain ⟨-, -, used⟩ := openRow_some found
      dsimp only at same
      rw [same, used] at freed
      cases freed
  · intro unusable
    refine isolated_of_returned ops gcd VFS_UNUSABLE ?_ (by decide)
    rw [handled]
    exact onVfs_of_returned (by rw [vfsClose_idle idle, unusable]; rfl)

end Calls

/-- **Descriptor isolation, exactly.**  In every run, a call with a descriptor that
is not the caller's is isolated if and only if it is a read or a write, or the VFS
has been shut down. -/
theorem foreign_isolated_iff (ops : FsOps σ) (gcd : Gcd τ) {w : World σ τ}
    (reached : (system ops gcd).Reachable w) {cur : Int} (running : Running w.kernel.table cur)
    {c : Call} (foreign : Foreign w.kernel.table cur c) :
    Isolated ops gcd w.kernel cur c ↔
      (c.checksList = true ∨ w.kernel.vfs.vfsUsable = false) := by
  have idle := idle_reachable ops gcd reached
  cases c with
  | read fd s len => simpa [Call.checksList] using read_isolated ops gcd foreign
  | write fd s len => simpa [Call.checksList] using write_isolated ops gcd foreign
  | seek fd offset => simpa [Call.checksList] using seek_isolated_iff ops gcd idle foreign
  | close fd => simpa [Call.checksList] using close_isolated_iff ops gcd idle running foreign
  | halt | exit _ | join _ | exec _ | openFile _ | create _ _ | delete _ | filecount _ | file _ _ =>
      exact absurd foreign (by simp [Foreign])

/-! ## Two processes -/

/-- A driver whose files are all empty. -/
def emptyFiles : FsOps Unit where
  unmount := pure 0
  openFile _ := pure 0
  close _ := pure 0
  read _ _ _ := pure (0, [])
  write _ _ _ _ := pure 0
  create _ _ := pure 0
  remove _ := pure 0
  getfree := pure 0
  filecount _ := pure 0
  file _ _ := pure (0, [])

/-- A terminal that is never typed on. -/
def silentTty : Gcd Unit where
  read _ := pure (0, [])
  write _ len := pure len

def volumeA : Name := [⟨0x61, by decide⟩]

/-- A file on the volume mounted as `a`. -/
def fileOnA : Name := [leftBracket, ⟨0x61, by decide⟩, rightBracket, ⟨0x66, by decide⟩]

/-- Volume `a` is mounted; no process runs. -/
def mounted : World Unit Unit where
  kernel :=
    { table := zeroTable
      vfs := (vfsInit fun _ => ()).setFilesystem 0 { filesystem := some 0, mountpoint := volumeA }
      tty := () }
  opened := fun _ => false

theorem mounted_boot : (system emptyFiles silentTty).initial mounted :=
  ⟨processInit_zeroTable.symm, ⟨rfl, rfl, rfl, rfl⟩, rfl, fun _ => rfl, fun _ => rfl⟩

/-- Process 0 starts process 1, which opens a file and gets descriptor 3. -/
def openInChild : List Event :=
  [.spawnFirst [], .call 0 (.exec []), .call 1 (.openFile fileOnA)]

set_option maxRecDepth 4000

/-- Process 0 seeks in the file that process 1 opened, and is told that all went well. -/
theorem seek_not_isolated :
    ¬ ∀ w, (system emptyFiles silentTty).Reachable w → ∀ cur c, Running w.kernel.table cur →
      Foreign w.kernel.table cur c → Isolated emptyFiles silentTty w.kernel cur c := by
  intro claim
  obtain ⟨w, ran⟩ : ∃ w, (system emptyFiles silentTty).exec mounted openInChild = some w :=
    ⟨_, rfl⟩
  have reached := (System.Reachable.start mounted_boot).exec ran
  cases ran
  obtain ⟨ret, k, sought, negative, -⟩ := claim _ reached 0 (.seek 3 100) (by decide) (by decide)
  cases sought
  exact absurd negative (by decide)

/-- Process 0 reads with the same descriptor and is refused; its seek is not. -/
theorem foreign_isolated_iff_child :
    ∃ w, (system emptyFiles silentTty).exec mounted openInChild = some w ∧
      Isolated emptyFiles silentTty w.kernel 0 (.read 3#32 true 10) ∧
      ¬ Isolated emptyFiles silentTty w.kernel 0 (.seek 3 100) := by
  obtain ⟨w, ran⟩ : ∃ w, (system emptyFiles silentTty).exec mounted openInChild = some w :=
    ⟨_, rfl⟩
  have reached := (System.Reachable.start mounted_boot).exec ran
  have exact := @foreign_isolated_iff _ _ emptyFiles silentTty _ reached 0
  cases ran
  exact ⟨_, rfl, (exact (by decide) (c := .read 3#32 true 10) (by decide)).2 (Or.inl rfl),
    fun isolated => absurd ((exact (by decide) (c := .seek 3 100) (by decide)).1 isolated)
      (by decide)⟩

end Buenos.Proc.Syscall
