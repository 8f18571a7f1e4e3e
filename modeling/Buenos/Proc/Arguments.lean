/-
# Proc.Arguments -- system calls whose arguments stop the kernel

The VFS asserts what its callers must see to: `vfs_verify_open` that a file is open,
`vfs_seek` that a position is not negative, `vfs_read` and `vfs_write` that a size is not.
Above it `syscall_create` tests its size and `syscall_read` and `syscall_write` look their
descriptor up; `syscall_seek` and `syscall_close` pass on what the process gave them, no call
tests a length, and a descriptor that is still in a list may belong to a row that another
process has closed.

`Accepted` is the condition under which a call returns.  Where it fails the kernel stops in
an assertion (`syscall_returns_iff`).
-/
import Buenos.Proc.OpenFiles

namespace Buenos.Proc.Syscall

open Buenos.Lib Buenos.Fs Buenos.Theory

set_option autoImplicit false

variable {σ τ : Type}

/-- The calls on files, with buffers that are not NULL. -/
def FileCall : Call → Prop
  | .openFile _ | .close _ | .seek _ _ | .create _ _ | .delete _ => True
  | .read _ s _ => s = true
  | .write _ s _ => s ≠ none
  | _ => False

/-- The descriptor's row is in use. -/
def IsOpen (s : Vfs σ) (file : Int) : Prop := (openRow s file).isSome = true

instance (s : Vfs σ) (file : Int) : Decidable (IsOpen s file) :=
  inferInstanceAs (Decidable (_ = true))

/-- The arguments are such that every assertion of the VFS holds. -/
def Accepted (ops : FsOps σ) (k : Kernel σ τ) (cur : Int) : Call → Prop
  | .openFile filename =>
      -- with a full list the row three below the new one is closed instead
      (k.table cur).cFiles < PROCESS_MAX_FILES ∨ ¬CanOpen ops k.vfs filename ∨
        ∃ row, freeRow k.vfs = some row ∧ 3 ≤ row
  | .close fd => fd ≤ 2 ∨ k.vfs.vfsUsable = false ∨ IsOpen k.vfs (fd - 3)
  | .seek fd offset =>
      fd ≤ 2 ∨ k.vfs.vfsUsable = false ∨ (0 ≤ offset ∧ IsOpen k.vfs (fd - 3))
  | .read fd _ len => fd.toNat ≤ 2 ∨ fd.toInt ∉ (k.table cur).fileList ∨
      k.vfs.vfsUsable = false ∨ (0 ≤ len ∧ IsOpen k.vfs (fd - 3#32).toInt)
  | .write fd _ len => fd.toNat ≤ 2 ∨ fd.toInt ∉ (k.table cur).fileList ∨
      k.vfs.vfsUsable = false ∨ (0 ≤ len ∧ IsOpen k.vfs (fd - 3#32).toInt)
  | _ => True

/-- The program returns from every state. -/
def Total {ρ α : Type} (m : Prog ρ α) : Prop := ∀ s, ∃ a t, m s = .returned (a, t)

/-- The functions of the driver that the calls reach return. -/
structure Responds (ops : FsOps σ) (gcd : Gcd τ) : Prop where
  openFile : ∀ name, Total (ops.openFile name)
  close : ∀ fileid, Total (ops.close fileid)
  read : ∀ fileid size offset, Total (ops.read fileid size offset)
  write : ∀ fileid bytes size offset, Total (ops.write fileid bytes size offset)
  create : ∀ name size, Total (ops.create name size)
  remove : ∀ name, Total (ops.remove name)
  ttyRead : ∀ len, Total (gcd.read len)
  ttyWrite : ∀ s len, Total (gcd.write s len)

/-- The program returns from `s` if `c`, and otherwise an assertion fails. -/
def Settles {ρ α : Type} (m : Prog ρ α) (s : ρ) (c : Prop) : Prop :=
  (c → ∃ a t, m s = .returned (a, t)) ∧ (¬c → m s = .stopped .assertion)

namespace Settles

variable {ρ α β : Type} {s : ρ} {c c' : Prop}

theorem congr {m : Prog ρ α} (settles : Settles m s c) (same : c ↔ c') : Settles m s c' := by
  rwa [← propext same]

theorem returned {m : Prog ρ α} {a : α} {t : ρ} (ran : m s = .returned (a, t)) (holds : c) :
    Settles m s c := ⟨fun _ => ⟨a, t, ran⟩, fun not => absurd holds not⟩

theorem stopped {m : Prog ρ α} (ran : m s = .stopped .assertion) (fails : ¬c) :
    Settles m s c := ⟨fun holds => absurd holds fails, fun _ => ran⟩

/-- The rest of a program after a part that returned. -/
theorem after {m : Prog ρ α} {f : α → Prog ρ β} {t : ρ} {a : α} (ran : m s = .returned (a, t))
    (rest : Settles (f a) t c) : Settles (m >>= f) s c := by
  rwa [Settles, Prog.bind_of_returned ran]

theorem onVfs {m : Prog (Vfs σ) α} {k : Kernel σ τ} (settles : Settles m k.vfs c) :
    Settles (Syscall.onVfs m : Prog (Kernel σ τ) α) k c := by
  constructor
  · intro holds
    obtain ⟨a, t, ran⟩ := settles.1 holds
    exact ⟨a, _, onVfs_of_returned ran⟩
  · intro fails
    rw [Syscall.onVfs, Prog.zoom, settles.2 fails]

/-- A result made of the program's own settles as the program does. -/
theorem map {m : Prog ρ α} {f : α → β} (settles : Settles m s c) :
    Settles (do let a ← m; pure (f a)) s c := by
  constructor
  · intro holds
    obtain ⟨a, t, ran⟩ := settles.1 holds
    exact ⟨f a, t, Prog.bind_of_returned ran⟩
  · intro fails
    rw [Prog.bind_apply, settles.2 fails]

end Settles

/-! ## The VFS -/

section Vfs

variable {ops : FsOps σ} {gcd : Gcd τ} {s : Vfs σ}

theorem driven_of_total {α β : Type} (fs : Nat) {m : Prog σ α} (total : Total m)
    (rest : α → Vfs σ → β × Vfs σ) :
    ∃ b t, driven s fs m (fun a t => .returned (rest a t)) = .returned (b, t) := by
  obtain ⟨a, d, ran⟩ := total (s.internal fs)
  rw [driven, ran]
  exact ⟨_, _, rfl⟩

theorem vfsSeek_settles (idle : s.Idle) (file seekPosition : Int) :
    Settles (vfsSeek file seekPosition) s
      (s.vfsUsable = false ∨ (0 ≤ seekPosition ∧ IsOpen s file)) := by
  have ran := vfsSeek_idle idle file seekPosition
  cases usable : s.vfsUsable with
  | false =>
      rw [usable] at ran
      exact .returned ran (Or.inl rfl)
  | true =>
      rw [usable, if_pos rfl] at ran
      split at ran
      · rename_i low
        split at ran
        · rename_i row fs found
          exact .returned ran (Or.inr ⟨low, by rw [IsOpen, found]; rfl⟩)
        · rename_i found
          exact .stopped ran (by simp [IsOpen, found])
      · rename_i low
        exact .stopped ran (by simp [low])

theorem vfsClose_settles (idle : s.Idle) (responds : Responds ops gcd) (file : Int) :
    Settles (vfsClose ops file) s (s.vfsUsable = false ∨ IsOpen s file) := by
  have ran := vfsClose_idle idle ops file
  cases usable : s.vfsUsable with
  | false =>
      rw [usable] at ran
      exact .returned ran (Or.inl rfl)
  | true =>
      rw [usable, if_pos rfl] at ran
      split at ran
      · rename_i row fs found
        obtain ⟨b, t, done⟩ := driven_of_total (s := s) fs (responds.close (s.files row).fileid)
          fun ret t => (ret, t.setFile row { t.files row with filesystem := none })
        exact .returned (ran.trans done) (Or.inr (by rw [IsOpen, found]; rfl))
      · rename_i found
        exact .stopped ran (by simp [IsOpen, found])

theorem vfsRead_settles (idle : s.Idle) (responds : Responds ops gcd) (file bufsize : Int) :
    Settles (vfsRead ops file true bufsize) s
      (s.vfsUsable = false ∨ (0 ≤ bufsize ∧ IsOpen s file)) := by
  have ran := vfsRead_idle idle ops file true bufsize
  cases usable : s.vfsUsable with
  | false =>
      rw [usable] at ran
      exact .returned ran (Or.inl rfl)
  | true =>
      rw [usable, if_pos rfl] at ran
      split at ran
      · rename_i row fs found
        split at ran
        · rename_i low
          obtain ⟨b, t, done⟩ := driven_of_total (s := s) fs
            (responds.read (s.files row).fileid bufsize (s.files row).seekPosition)
            fun ret t => (ret, t.advanced row ret.1)
          exact .returned (ran.trans done)
            (Or.inr ⟨by simpa using low, by rw [IsOpen, found]; rfl⟩)
        · rename_i low
          exact .stopped ran (by simpa [IsOpen, found] using low)
      · rename_i found
        exact .stopped ran (by simp [IsOpen, found])

theorem vfsWrite_settles (idle : s.Idle) (responds : Responds ops gcd) (file : Int)
    (bytes : List Byte) (datasize : Int) :
    Settles (vfsWrite ops file (some bytes) datasize) s
      (s.vfsUsable = false ∨ (0 ≤ datasize ∧ IsOpen s file)) := by
  have ran := vfsWrite_idle idle ops file (some bytes) datasize
  cases usable : s.vfsUsable with
  | false =>
      rw [usable] at ran
      exact .returned ran (Or.inl rfl)
  | true =>
      rw [usable, if_pos rfl] at ran
      cases found : openRow s file with
      | none =>
          rw [found] at ran
          exact .stopped ran (by simp [IsOpen, found])
      | some r =>
          rw [found] at ran
          by_cases low : 0 ≤ datasize
          · obtain ⟨b, t, done⟩ := driven_of_total (s := s) r.2
              (responds.write (s.files r.1).fileid bytes datasize (s.files r.1).seekPosition)
              fun ret t => (ret, t.advanced r.1 ret)
            simp only [if_pos low] at ran
            exact .returned (ran.trans done) (Or.inr ⟨low, by rw [IsOpen, found]; rfl⟩)
          · simp only [if_neg low] at ran
            exact .stopped ran (by simp [low])

theorem onPath_returns (idle : s.Idle) (pathname : Name) {m : Name → Prog σ Int}
    (total : ∀ name, Total (m name)) : ∃ a t, onPath pathname id m s = .returned (a, t) := by
  rw [onPath_idle idle]
  split
  · split
    · exact ⟨_, _, rfl⟩
    · split
      · exact ⟨_, _, rfl⟩
      · exact driven_of_total _ (total _) fun ret t => (ret, t)
  · exact ⟨_, _, rfl⟩

/-- An open that can be made takes the first free row; any other leaves no row open. -/
theorem vfsOpen_outcome (idle : s.Idle) (responds : Responds ops gcd) (pathname : Name) :
    ∃ ret t, vfsOpen ops pathname s = .returned (ret, t) ∧
      (ret < 0 ∧ ¬CanOpen ops s pathname ∨
        ∃ row : Nat, ret = row ∧ freeRow s = some row ∧ CanOpen ops s pathname) := by
  have ran := vfsOpen_idle idle ops pathname
  cases usable : s.vfsUsable with
  | false =>
      rw [usable] at ran
      exact ⟨_, _, ran, Or.inl ⟨by decide, fun able => by simp [CanOpen, usable] at able⟩⟩
  | true =>
      rw [usable, if_pos rfl] at ran
      cases parsed : vfsParsePathname pathname with
      | none =>
          simp only [parsed] at ran
          exact ⟨_, _, ran, Or.inl ⟨by decide, fun able => by simp [CanOpen, parsed] at able⟩⟩
      | some names =>
          obtain ⟨volumename, filename⟩ := names
          cases free : freeRow s with
          | none =>
              simp only [parsed, free] at ran
              exact ⟨_, _, ran, Or.inl ⟨by decide, fun able => by simp [CanOpen, free] at able⟩⟩
          | some row =>
              cases volume : vfsGetFilesystem s volumename with
              | none =>
                  simp only [parsed, free, volume] at ran
                  refine ⟨_, _, ran, Or.inl ⟨by decide, fun able => ?_⟩⟩
                  simp [CanOpen, parsed, volume] at able
              | some fs =>
                  simp only [parsed, free, volume] at ran
                  obtain ⟨fileid, d, asked⟩ := responds.openFile filename (s.internal fs)
                  rw [driven, setFile_internal, asked] at ran
                  by_cases negative : fileid < 0
                  · simp only [if_pos negative] at ran
                    refine ⟨_, _, ran, Or.inl ⟨negative, fun able => ?_⟩⟩
                    simp [CanOpen, parsed, volume, asked] at able
                    omega
                  · simp only [if_neg negative] at ran
                    have able : CanOpen ops s pathname := ⟨usable, volumename, filename, row, fs,
                      fileid, d, parsed, free, volume, asked, Int.not_lt.1 negative⟩
                    exact ⟨_, _, ran, Or.inr ⟨row, rfl, rfl, able⟩⟩

theorem freeRow_below {row other : Nat} (free : freeRow s = some row) (below : other < row) :
    (s.files other).filesystem ≠ none := by
  obtain ⟨-, -, used⟩ := List.find?_range_eq_some.1 free
  simpa using used other below

end Vfs

/-! ## The system calls -/

section Calls

variable {ops : FsOps σ} {gcd : Gcd τ} {k : Kernel σ τ} {cur : Int}

/-- With a full list the call ends in closing the row three below the new one. -/
theorem syscallOpen_settles (idle : k.vfs.Idle) (responds : Responds ops gcd)
    (running : Running k.table cur) (filename : Name) :
    Settles (syscallOpen ops cur filename : Prog (Kernel σ τ) Int) k
      (Accepted ops k cur (.openFile filename)) := by
  obtain ⟨ret, vfs, called, found⟩ := vfsOpen_outcome idle responds filename
  refine .after (onVfs_of_returned called) ?_
  obtain ⟨idle', usable', rows⟩ := vfsOpen_left idle ops filename _ _ called
  rcases found with ⟨negative, unable⟩ | ⟨row, rfl, free, able⟩
  · rw [if_neg (by omega : ¬0 ≤ ret)]
    exact .returned rfl (Or.inr (Or.inl unable))
  · rw [if_pos (by omega : (0 : Int) ≤ (row : Int))]
    by_cases room : (k.table cur).cFiles < PROCESS_MAX_FILES
    · refine .after (onTable_of_returned (k := { k with vfs := vfs })
        (processAddFile_running running room _)) ?_
      exact .returned rfl (Or.inl room)
    · have refused : processAddFile cur (row + 3) k.table = .returned (-1, k.table) := by
        rw [processAddFile, if_neg (by simp [room])]
      refine .after (onTable_of_returned (k := { k with vfs := vfs }) refused) ?_
      rw [if_pos (by decide : (-1 : Int) < 0)]
      have settles : Settles (vfsClose ops ((row : Int) - 3)) vfs (3 ≤ row) := by
        refine (vfsClose_settles idle' responds _).congr ?_
        rcases rows with ⟨negative, -⟩ | ⟨row', same, bound, -, -, others⟩
        · omega
        · have here : row' = row := by omega
          subst here
          rw [usable', able.1]
          constructor
          · rintro (shut | isOpen)
            · cases shut
            · obtain ⟨⟨r, fs⟩, found⟩ := Option.isSome_iff_exists.1 isOpen
              have := (openRow_some found).1
              omega
          · intro high
            have used := freeRow_below free (by omega : row' - 3 < row')
            rw [← others (row' - 3) (by omega)] at used
            right
            rw [IsOpen, openRow, if_pos (by omega),
              show ((row' : Int) - 3).toNat = row' - 3 by omega, Option.isSome_map]
            exact Option.isSome_iff_ne_none.2 used
      refine (Settles.map (Settles.onVfs (k := { k with vfs := vfs }) settles)).congr ?_
      constructor
      · intro high
        exact Or.inr (Or.inr ⟨row, free, high⟩)
      · rintro (room' | unable | ⟨row', free', high⟩)
        · exact absurd room' room
        · exact absurd able unable
        · rw [free] at free'
          cases free'
          exact high

theorem syscallClose_settles (idle : k.vfs.Idle) (responds : Responds ops gcd)
    (running : Running k.table cur) (fd : Int) :
    Settles (syscallClose ops cur fd : Prog (Kernel σ τ) Int) k
      (Accepted ops k cur (.close fd)) := by
  rw [syscallClose]
  by_cases low : 2 < fd
  · rw [if_pos low]
    -- the answer does not depend on the list
    have removed : processRemFile cur fd k.table =
        .returned (0, Function.update k.table cur
          (remLoop fd (k.table cur).cFiles 0 (k.table cur))) := by
      rw [processRemFile, if_pos (fileListUsable_of_running running)]
    refine .after (onTable_of_returned removed) ?_
    rw [if_neg (by decide : ¬(0 : Int) < 0)]
    have closed := vfsClose_settles idle responds (fd - 3)
    refine Settles.onVfs (k := ⟨_, k.vfs, k.tty⟩) (closed.congr ?_)
    exact (or_iff_right (by omega)).symm
  · rw [if_neg low]
    exact .returned rfl (Or.inl (by omega))

theorem syscallSeek_settles (idle : k.vfs.Idle) (fd offset : Int) :
    Settles (syscallSeek fd offset : Prog (Kernel σ τ) Int) k
      (Accepted ops k cur (.seek fd offset)) := by
  rw [syscallSeek]
  by_cases low : 2 < fd
  · rw [if_pos low]
    exact (Settles.onVfs (vfsSeek_settles idle _ _)).congr (or_iff_right (by omega)).symm
  · rw [if_neg low]
    exact .returned rfl (Or.inl (by omega))

/-- A call on the VFS that is made only for a descriptor in the caller's list. -/
theorem checked_settles {α : Type} (running : Running k.table cur) {m : Prog (Vfs σ) α} {c : Prop}
    (settles : Settles m k.vfs c) (fd : Int) (refused : α) :
    Settles (do
      let found ← onTable (processCheckFile cur fd)
      if found = 0 then onVfs m else pure refused : Prog (Kernel σ τ) α) k
      (fd ∉ (k.table cur).fileList ∨ c) := by
  have checked := processCheckFile_apply cur fd k.table
  rw [fileListUsable_of_running running] at checked
  refine .after (onTable_of_returned checked) ?_
  by_cases member : fd ∈ (k.table cur).fileList
  · simpa [member] using Settles.onVfs settles
  · simpa [member] using Settles.returned (c := True) (m := pure refused) (s := k) rfl trivial

theorem onTty_returns {α : Type} {m : Prog τ α} (total : Total m) :
    ∃ a k', (onTty m : Prog (Kernel σ τ) α) k = .returned (a, k') := by
  obtain ⟨a, tty, ran⟩ := total k.tty
  exact ⟨a, _, Prog.zoom_of_returned ran⟩

theorem syscallRead_settles (idle : k.vfs.Idle) (responds : Responds ops gcd)
    (running : Running k.table cur) (fd : BitVec 32) (len : Int) :
    Settles (syscallRead ops gcd cur fd true len : Prog (Kernel σ τ) (Int × List Byte)) k
      (Accepted ops k cur (.read fd true len)) := by
  rw [syscallRead]
  by_cases stdin : fd.toNat = FILEHANDLE_STDIN
  · rw [if_pos stdin]
    obtain ⟨a, k', ran⟩ := onTty_returns (k := k) (responds.ttyRead len)
    exact .returned ran (Or.inl (by rw [stdin]; decide))
  · rw [if_neg stdin]
    by_cases low : 2 < fd.toNat
    · rw [if_pos low]
      exact (checked_settles running (vfsRead_settles idle responds _ len) _ _).congr
        (or_iff_right (by omega)).symm
    · rw [if_neg low]
      exact .returned rfl (Or.inl (by omega))

theorem syscallWrite_settles (idle : k.vfs.Idle) (responds : Responds ops gcd)
    (running : Running k.table cur) (fd : BitVec 32) (bytes : List Byte) (len : Int) :
    Settles (syscallWrite ops gcd cur fd (some bytes) len : Prog (Kernel σ τ) Int) k
      (Accepted ops k cur (.write fd (some bytes) len)) := by
  rw [syscallWrite]
  by_cases terminal : fd.toNat = FILEHANDLE_STDOUT ∨ fd.toNat = FILEHANDLE_STDERR
  · rw [if_pos terminal]
    obtain ⟨a, k', ran⟩ := onTty_returns (k := k) (responds.ttyWrite (some bytes) len)
    have low : fd.toNat ≤ 2 := by
      rcases terminal with stdout | stderr
      · rw [stdout]; decide
      · rw [stderr]; decide
    exact .returned ran (Or.inl low)
  · rw [if_neg terminal]
    by_cases low : 2 < fd.toNat
    · rw [if_pos low]
      exact (checked_settles running (vfsWrite_settles idle responds _ bytes len) _ _).congr
        (or_iff_right (by omega)).symm
    · rw [if_neg low]
      exact .returned rfl (Or.inl (by omega))

theorem syscallCreate_returns (idle : k.vfs.Idle) (responds : Responds ops gcd) (filename : Name)
    (size : Int) :
    ∃ ret k', (syscallCreate ops filename size : Prog (Kernel σ τ) Int) k =
      .returned (ret, k') := by
  rw [syscallCreate]
  by_cases negative : size < 0
  · rw [if_pos negative]
    exact ⟨_, _, rfl⟩
  · rw [if_neg negative]
    obtain ⟨ret, vfs, ran⟩ := onPath_returns idle filename fun name => responds.create name size
    have created : vfsCreate ops filename size k.vfs = .returned (ret, vfs) := by
      rw [vfsCreate_apply, if_pos (by omega)]
      exact ran
    exact ⟨ret, _, onVfs_of_returned created⟩

theorem syscallDelete_returns (idle : k.vfs.Idle) (responds : Responds ops gcd)
    (filename : Name) :
    ∃ ret k', (syscallDelete ops filename : Prog (Kernel σ τ) Int) k = .returned (ret, k') := by
  obtain ⟨ret, vfs, ran⟩ := onPath_returns idle filename responds.remove
  exact ⟨ret, _, onVfs_of_returned ran⟩

theorem syscallHandle_settles (idle : k.vfs.Idle) (responds : Responds ops gcd)
    (running : Running k.table cur) {c : Call} (file : FileCall c) :
    Settles (syscallHandle ops gcd cur c) k (Accepted ops k cur c) := by
  cases c with
  | openFile filename => exact syscallOpen_settles idle responds running filename
  | close fd => exact syscallClose_settles idle responds running fd
  | seek fd offset => exact syscallSeek_settles idle fd offset
  | read fd s len =>
      subst file
      exact (syscallRead_settles idle responds running fd len).map
  | write fd s len =>
      obtain ⟨bytes, rfl⟩ := Option.ne_none_iff_exists'.1 file
      exact syscallWrite_settles idle responds running fd bytes len
  | create filename size =>
      obtain ⟨ret, k', ran⟩ := syscallCreate_returns idle responds filename size
      exact .returned ran trivial
  | delete filename =>
      obtain ⟨ret, k', ran⟩ := syscallDelete_returns idle responds filename
      exact .returned ran trivial
  | halt | exit _ | join _ | exec _ | filecount _ | file _ _ => exact absurd file id

end Calls

/-- **Which arguments are safe.**  In every run, a call on files returns if and only if
`Accepted` holds, and otherwise an assertion stops the kernel. -/
theorem syscall_returns_iff (ops : FsOps σ) (gcd : Gcd τ) (responds : Responds ops gcd)
    {w : World σ τ} (reached : (system ops gcd).Reachable w) {cur : Int}
    (running : Running w.kernel.table cur) {c : Call} (file : FileCall c) :
    ((∃ ret k', syscallHandle ops gcd cur c w.kernel = .returned (ret, k')) ↔
        Accepted ops w.kernel cur c) ∧
      (syscallHandle ops gcd cur c w.kernel = .stopped .assertion ↔
        ¬Accepted ops w.kernel cur c) := by
  have settles := syscallHandle_settles (idle_reachable ops gcd reached) responds running file
  constructor
  · refine ⟨fun returns => ?_, settles.1⟩
    by_contra fails
    obtain ⟨ret, k', ran⟩ := returns
    rw [settles.2 fails] at ran
    cases ran
  · refine ⟨fun stops holds => ?_, settles.2⟩
    obtain ⟨ret, k', ran⟩ := settles.1 holds
    rw [stops] at ran
    cases ran

theorem emptyFiles_responds : Responds emptyFiles silentTty :=
  ⟨fun _ _ => ⟨_, _, rfl⟩, fun _ _ => ⟨_, _, rfl⟩, fun _ _ _ _ => ⟨_, _, rfl⟩,
    fun _ _ _ _ _ => ⟨_, _, rfl⟩, fun _ _ _ => ⟨_, _, rfl⟩, fun _ _ => ⟨_, _, rfl⟩,
    fun _ _ => ⟨_, _, rfl⟩, fun _ _ _ => ⟨_, _, rfl⟩⟩

set_option maxRecDepth 4000

/-- Process 0 seeks before the start of the file that process 1 opened. -/
theorem seek_stops_kernel :
    ¬∀ w, (system emptyFiles silentTty).Reachable w → ∀ cur c, Running w.kernel.table cur →
      FileCall c → ∃ ret k', syscallHandle emptyFiles silentTty cur c w.kernel =
        .returned (ret, k') := by
  intro claim
  obtain ⟨w, ran⟩ : ∃ w, (system emptyFiles silentTty).exec mounted openInChild = some w :=
    ⟨_, rfl⟩
  have reached := (System.Reachable.start mounted_boot).exec ran
  cases ran
  obtain ⟨ret, k, sought⟩ := claim _ reached 0 (.seek 3 (-1)) (by decide) trivial
  cases sought

/-- Process 1 may close the file it opened; closing the descriptor after it stops the
kernel. -/
theorem syscall_returns_iff_child :
    ∃ w, (system emptyFiles silentTty).exec mounted openInChild = some w ∧
      (∃ ret k', syscallHandle emptyFiles silentTty 1 (.close 3) w.kernel = .returned (ret, k')) ∧
      syscallHandle emptyFiles silentTty 1 (.close 4) w.kernel = .stopped .assertion := by
  obtain ⟨w, ran⟩ : ∃ w, (system emptyFiles silentTty).exec mounted openInChild = some w :=
    ⟨_, rfl⟩
  have reached := (System.Reachable.start mounted_boot).exec ran
  have exact := @syscall_returns_iff _ _ emptyFiles silentTty emptyFiles_responds _ reached 1
  cases ran
  refine ⟨_, rfl, (exact (by decide) (c := .close 3) trivial).1.2 ?_,
    (exact (by decide) (c := .close 4) trivial).2.2 ?_⟩
  · exact Or.inr (Or.inr (by decide))
  · rintro (low | shut | isOpen)
    · exact absurd low (by decide)
    · cases shut
    · exact absurd isOpen (by decide)

end Buenos.Proc.Syscall
