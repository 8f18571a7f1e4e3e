/-
# Proc.Syscall -- system calls and descriptor isolation

The kernel state behind a system call is the process table, the VFS and the
terminal; the functions of proc/syscall.c run on it for the process whose index
is `cur`.  A descriptor is a row of the open-file table plus three, and each
process keeps a list of its own.

A run takes calls of any processes in any order, each to its end; a process that
is started opens and loads its executable in between.  The ghost field `opened`
marks the rows that came into use during a `syscall_open`.

`syscall_read` and `syscall_write` ask the process's list before they touch the
VFS.  `syscall_seek` asks nothing, and `syscall_close` takes the descriptor out of
the list without asking whether it was there: `foreign_isolated_iff` is the exact
account.
-/
import Buenos.Fs.VfsIdle
import Buenos.Proc.Process
import Buenos.Theory.Run

namespace Buenos.Proc.Syscall

open Buenos.Lib Buenos.Fs Buenos.Theory

set_option autoImplicit false

def FILEHANDLE_STDIN : Nat := 0
def FILEHANDLE_STDOUT : Nat := 1
def FILEHANDLE_STDERR : Nat := 2

/-- The terminal's generic character device. -/
structure Gcd (τ : Type) where
  read : Int → Prog τ (Int × List Byte)
  write : Option (List Byte) → Int → Prog τ Int

structure Kernel (σ τ : Type) where
  table : ProcessTable
  vfs : Vfs σ
  tty : τ

variable {σ τ : Type}

def onTable {α : Type} (m : Prog ProcessTable α) : Prog (Kernel σ τ) α :=
  Prog.zoom (fun k => k.table) (fun table k => { k with table := table }) m

def onVfs {α : Type} (m : Prog (Vfs σ) α) : Prog (Kernel σ τ) α :=
  Prog.zoom (fun k => k.vfs) (fun vfs k => { k with vfs := vfs }) m

def onTty {α : Type} (m : Prog τ α) : Prog (Kernel σ τ) α :=
  Prog.zoom (fun k => k.tty) (fun tty k => { k with tty := tty }) m

theorem onTable_of_returned {α : Type} {m : Prog ProcessTable α} {k : Kernel σ τ} {a : α}
    {table : ProcessTable} (ran : m k.table = .returned (a, table)) :
    onTable m k = .returned (a, { k with table := table }) :=
  Prog.zoom_of_returned ran

theorem onVfs_of_returned {α : Type} {m : Prog (Vfs σ) α} {k : Kernel σ τ} {a : α} {vfs : Vfs σ}
    (ran : m k.vfs = .returned (a, vfs)) : onVfs m k = .returned (a, { k with vfs := vfs }) :=
  Prog.zoom_of_returned ran

section Calls

variable (ops : FsOps σ) (gcd : Gcd τ)

def syscallExit (cur retval : Int) : Prog (Kernel σ τ) Int := do
  onTable (Prog.modify fun table => processFinish table cur retval)
  pure 0

def syscallWrite (cur : Int) (fd : BitVec 32) (s : Option (List Byte)) (len : Int) :
    Prog (Kernel σ τ) Int :=
  if fd.toNat = FILEHANDLE_STDOUT ∨ fd.toNat = FILEHANDLE_STDERR then onTty (gcd.write s len)
  else if 2 < fd.toNat then do
    let found ← onTable (processCheckFile cur fd.toInt)
    if found = 0 then onVfs (vfsWrite ops (fd - 3#32).toInt s len)
    else pure VFS_NOT_OPEN
  else pure VFS_NOT_OPEN

/-- `s` says that the caller's pointer is not NULL. -/
def syscallRead (cur : Int) (fd : BitVec 32) (s : Bool) (len : Int) :
    Prog (Kernel σ τ) (Int × List Byte) :=
  if fd.toNat = FILEHANDLE_STDIN then onTty (gcd.read len)
  else if 2 < fd.toNat then do
    let found ← onTable (processCheckFile cur fd.toInt)
    if found = 0 then onVfs (vfsRead ops (fd - 3#32).toInt s len)
    else pure (VFS_NOT_OPEN, [])
  else pure (VFS_NOT_OPEN, [])

def syscallJoin (cur pid : Int) : Prog (Kernel σ τ) Int := onTable (processJoin cur pid)

def syscallExec (cur : Int) (filename : Name) : Prog (Kernel σ τ) Int :=
  onTable (processSpawn cur filename)

def syscallOpen (cur : Int) (filename : Name) : Prog (Kernel σ τ) Int := do
  let fd ← onVfs (vfsOpen ops filename)
  if 0 ≤ fd then do
    let added ← onTable (processAddFile cur (fd + 3))
    if added < 0 then do
      let _ ← onVfs (vfsClose ops (fd - 3))
      pure (-1)
    else pure (fd + 3)
  else pure fd

def syscallClose (cur fd : Int) : Prog (Kernel σ τ) Int :=
  if 2 < fd then do
    let removed ← onTable (processRemFile cur fd)
    if removed < 0 then pure (-1)
    else onVfs (vfsClose ops (fd - 3))
  else pure (-10)

def syscallCreate (filename : Name) (size : Int) : Prog (Kernel σ τ) Int :=
  if size < 0 then pure (-1) else onVfs (vfsCreate ops filename size)

def syscallDelete (filename : Name) : Prog (Kernel σ τ) Int := onVfs (vfsRemove ops filename)

def syscallSeek (fd offset : Int) : Prog (Kernel σ τ) Int :=
  if 2 < fd then onVfs (vfsSeek (fd - 3) offset) else pure (-11)

def syscallFilecount (path : Name) : Prog (Kernel σ τ) Int := onVfs (vfsFilecount ops path)

def syscallFile (path : Name) (idx : Int) : Prog (Kernel σ τ) (Int × Name) :=
  onVfs (vfsFile ops path idx)

/-- Halting unmounts every filesystem. -/
def haltKernel : Prog (Kernel σ τ) Unit := onVfs (vfsDeinit ops)

/-- The part of `process_start` that uses the VFS: the executable is opened, and each
header and segment of it is read from the place given for it. -/
def loadSegments (file : Int) : List (Int × Int) → Prog (Kernel σ τ) Unit
  | [] => pure ()
  | (location, size) :: rest => do
      let _ ← onVfs (vfsSeek file location)
      let _ ← onVfs (vfsRead ops file true size)
      loadSegments file rest

def processStart (pid : Int) (segments : List (Int × Int)) : Prog (Kernel σ τ) Unit := do
  let executable ← Prog.gets fun k => (k.table pid).executable
  let file ← onVfs (vfsOpen ops executable)
  if 0 ≤ file then loadSegments ops file segments
  else Prog.stop .assertion

end Calls

/-! ## Runs of calls -/

inductive Call where
  | halt
  | exit (retval : Int)
  | write (fd : BitVec 32) (s : Option (List Byte)) (len : Int)
  | read (fd : BitVec 32) (s : Bool) (len : Int)
  | join (pid : Int)
  | exec (filename : Name)
  | openFile (filename : Name)
  | close (fd : Int)
  | create (filename : Name) (size : Int)
  | delete (filename : Name)
  | seek (fd offset : Int)
  | filecount (path : Name)
  | file (path : Name) (idx : Int)

/-- `syscall_handle`: the value left in V0, for the calls that leave one. -/
def syscallHandle (ops : FsOps σ) (gcd : Gcd τ) (cur : Int) : Call → Prog (Kernel σ τ) Int
  | .halt => do haltKernel ops; pure 0
  | .exit retval => syscallExit cur retval
  | .write fd s len => syscallWrite ops gcd cur fd s len
  | .read fd s len => do let ret ← syscallRead ops gcd cur fd s len; pure ret.1
  | .join pid => syscallJoin cur pid
  | .exec filename => syscallExec cur filename
  | .openFile filename => syscallOpen ops cur filename
  | .close fd => syscallClose ops cur fd
  | .create filename size => syscallCreate ops filename size
  | .delete filename => syscallDelete ops filename
  | .seek fd offset => syscallSeek fd offset
  | .filecount path => syscallFilecount ops path
  | .file path idx => do let ret ← syscallFile ops path idx; pure ret.1

structure World (σ τ : Type) where
  kernel : Kernel σ τ
  opened : Nat → Bool

inductive Event where
  | call (cur : Int) (c : Call)
  | start (pid : Int) (segments : List (Int × Int))
  | spawnFirst (executable : Name)

/-- Row `file` is in use. -/
def rowUsed (k : Kernel σ τ) (file : Nat) : Bool := (k.vfs.files file).filesystem.isSome

/-- Rows that come into use during a `syscall_open` are marked until they are free. -/
def remark (w : World σ τ) (opening : Bool) (k : Kernel σ τ) : World σ τ where
  kernel := k
  opened := fun file => rowUsed k file && (w.opened file || opening && !rowUsed w.kernel file)

/-- A user process: an entry of the table in state RUNNING. -/
def Running (table : ProcessTable) (p : Int) : Prop :=
  0 ≤ p ∧ p < PROCESS_MAX_PROCESSES ∧ (table p).state = .running

instance (table : ProcessTable) (p : Int) : Decidable (Running table p) := by
  unfold Running; infer_instance

def after {α : Type} (w : World σ τ) (opening : Bool) (m : Prog (Kernel σ τ) α) :
    Option (World σ τ) :=
  match m w.kernel with
  | .returned (_, k) => some (remark w opening k)
  | .stopped _ => none

theorem after_some {α : Type} {w w' : World σ τ} {opening : Bool} {m : Prog (Kernel σ τ) α}
    (taken : after w opening m = some w') :
    ∃ a k, m w.kernel = .returned (a, k) ∧ w' = remark w opening k := by
  unfold after at taken
  split at taken
  · rename_i a k ran
    exact ⟨a, k, ran, (Option.some.inj taken).symm⟩
  · cases taken

def Call.opens : Call → Bool
  | .openFile _ => true
  | _ => false

def step (ops : FsOps σ) (gcd : Gcd τ) (w : World σ τ) : Event → Option (World σ τ)
  | .call cur c =>
      if Running w.kernel.table cur then after w c.opens (syscallHandle ops gcd cur c) else none
  | .start pid segments =>
      if Running w.kernel.table pid then after w false (processStart ops pid segments) else none
  | .spawnFirst executable => after w false (syscallExec kernelPid executable)

/-- The VFS is ready, with any filesystems mounted; no process runs and no file is
open. -/
structure Boot (w : World σ τ) : Prop where
  table : w.kernel.table = processInit zeroTable
  idle : w.kernel.vfs.Idle
  usable : w.kernel.vfs.vfsUsable = true
  unused : ∀ row, rowUsed w.kernel row = false
  opened : ∀ row, w.opened row = false

def system (ops : FsOps σ) (gcd : Gcd τ) : System (World σ τ) Event where
  initial := Boot
  step := step ops gcd

/-! ## What a call leaves behind -/

section Left

variable (ops : FsOps σ) (gcd : Gcd τ) {k : Kernel σ τ}

/-- A call that touches no list and takes or frees no row. -/
structure Quiet (k k' : Kernel σ τ) : Prop where
  table : k'.table = k.table
  vfs : k.vfs.Left k'.vfs (SameRows k.vfs)

/-- The calls that are quiet by design. -/
def Call.quiet : Call → Bool
  | .write .. | .read .. | .create .. | .delete .. | .seek .. | .filecount .. | .file .. => true
  | _ => false

theorem Quiet.refl (idle : k.vfs.Idle) : Quiet k k := ⟨rfl, idle, rfl, fun _ => rfl⟩

theorem Quiet.trans {k' k'' : Kernel σ τ} (first : Quiet k k') (second : Quiet k' k'') :
    Quiet k k'' :=
  ⟨second.table.trans first.table, second.vfs.idle, second.vfs.usable.trans first.vfs.usable,
    fun row => (second.vfs.rows row).trans (first.vfs.rows row)⟩

theorem onVfs_quiet {α : Type} {m : Prog (Vfs σ) α}
    (left : m.Keeps k.vfs fun _ t => k.vfs.Left t (SameRows k.vfs)) :
    (onVfs m : Prog (Kernel σ τ) α).Keeps k fun _ k' => Quiet k k' :=
  .zoom (left.mono fun _ _ holds => ⟨rfl, holds⟩)

theorem onTty_quiet {α : Type} (idle : k.vfs.Idle) (m : Prog τ α) :
    (onTty m : Prog (Kernel σ τ) α).Keeps k fun _ k' => Quiet k k' :=
  .zoom fun _ _ _ => ⟨rfl, idle, rfl, fun _ => rfl⟩

/-- A VFS call that is made only for a descriptor in the caller's list. -/
theorem checked_quiet {α : Type} (idle : k.vfs.Idle) {m : Prog (Vfs σ) α}
    (left : m.Keeps k.vfs fun _ t => k.vfs.Left t (SameRows k.vfs)) (cur fd : Int) (refused : α) :
    (do let found ← onTable (processCheckFile cur fd)
        if found = 0 then onVfs m else pure refused : Prog (Kernel σ τ) α).Keeps k
      fun _ k' => Quiet k k' := by
  intro ret k' ran
  obtain ⟨found, k₁, first, ran⟩ := Prog.bind_returned.1 ran
  obtain ⟨table, checked, rfl⟩ := Prog.zoom_returned.1 first
  rw [processCheckFile_apply] at checked
  cases checked
  simp only [Prog.ite_apply] at ran
  split at ran
  · exact onVfs_quiet left _ _ ran
  · cases ran
    exact .refl idle

/-- **Quiet calls.**  Reading, writing, seeking and every call on a path keep the
process table and the use of the rows. -/
theorem syscallHandle_quiet (idle : k.vfs.Idle) (cur : Int) (c : Call) (quiet : c.quiet = true) :
    (syscallHandle ops gcd cur c).Keeps k fun _ k' => Quiet k k' := by
  cases c with
  | write fd s len =>
      exact .ite (onTty_quiet idle _)
        (.ite (checked_quiet idle (vfsWrite_left idle ops _ _ _) _ _ _) (.pure (.refl idle)))
  | read fd s len =>
      exact .bind (.ite (onTty_quiet idle _)
        (.ite (checked_quiet idle (vfsRead_left idle ops _ _ _) _ _ _) (.pure (.refl idle))))
        fun _ _ quiet => .pure quiet
  | create filename size =>
      exact .ite (.pure (.refl idle)) (onVfs_quiet ((vfsCreate_left idle ops _ _).mono
        fun _ _ left => left.sameRows))
  | seek fd offset =>
      exact .ite (onVfs_quiet (vfsSeek_left idle _ _)) (.pure (.refl idle))
  | delete filename =>
      exact onVfs_quiet ((onPath_left idle _ _ _).mono fun _ _ left => left.sameRows)
  | filecount path =>
      exact onVfs_quiet ((onPath_left idle _ _ _).mono fun _ _ left => left.sameRows)
  | file path idx =>
      exact .bind (onVfs_quiet ((onPath_left idle _ _ _).mono fun _ _ left => left.sameRows))
        fun _ _ quiet => .pure quiet
  | halt | exit _ | join _ | exec _ | openFile _ | close _ => cases quiet

theorem onVfs_idle {α : Type} {m : Prog (Vfs σ) α} (keeps : m.Keeps k.vfs fun _ t => t.Idle) :
    (onVfs m : Prog (Kernel σ τ) α).Keeps k fun _ k' => k'.vfs.Idle :=
  .zoom keeps

theorem onTable_idle {α : Type} (idle : k.vfs.Idle) (m : Prog ProcessTable α) :
    (onTable m : Prog (Kernel σ τ) α).Keeps k fun _ k' => k'.vfs.Idle :=
  .zoom fun _ _ _ => idle

theorem syscallHandle_idle (idle : k.vfs.Idle) (cur : Int) (c : Call) :
    (syscallHandle ops gcd cur c).Keeps k fun _ k' => k'.vfs.Idle := by
  cases quiet : c.quiet with
  | true => exact (syscallHandle_quiet ops gcd idle cur c quiet).mono fun _ _ q => q.vfs.idle
  | false =>
      cases c with
      | halt =>
          exact .bind (onVfs_idle ((vfsDeinit_idle idle ops).mono fun _ _ left => left.1))
            fun _ _ idle => .pure idle
      | exit retval => exact .bind (onTable_idle idle _) fun _ _ idle => .pure idle
      | join pid => exact onTable_idle idle _
      | exec filename => exact onTable_idle idle _
      | openFile filename =>
          refine .bind (onVfs_idle ((vfsOpen_left idle ops filename).mono fun _ _ left => left.idle))
            fun fd k₁ idle₁ => .ite (.bind (onTable_idle idle₁ _) fun added k₂ idle₂ => ?_)
              (.pure idle₁)
          exact .ite (.bind (onVfs_idle ((vfsClose_left idle₂ ops _).mono fun _ _ left => left.idle))
            fun _ _ idle₃ => .pure idle₃) (.pure idle₂)
      | close fd =>
          exact .ite (.bind (onTable_idle idle _) fun _ _ idle₁ => .ite (.pure idle₁)
            (onVfs_idle ((vfsClose_left idle₁ ops _).mono fun _ _ left => left.idle))) (.pure idle)
      | write _ _ _ | read _ _ _ | create _ _ | delete _ | seek _ _ | filecount _ | file _ _ =>
          cases quiet

theorem loadSegments_quiet (idle : k.vfs.Idle) (file : Int) (segments : List (Int × Int)) :
    (loadSegments ops file segments : Prog (Kernel σ τ) Unit).Keeps k fun _ k' => Quiet k k' := by
  induction segments generalizing k with
  | nil => exact .pure (.refl idle)
  | cons segment rest ih =>
      refine .bind (onVfs_quiet (vfsSeek_left idle _ _)) fun _ k₁ first => ?_
      refine .bind (onVfs_quiet (vfsRead_left first.vfs.idle ops _ _ _)) fun _ k₂ second => ?_
      exact (ih second.vfs.idle).mono fun _ _ third => first.trans (second.trans third)

/-- A start takes one free row for the executable. -/
theorem processStart_left (idle : k.vfs.Idle) (pid : Int) (segments : List (Int × Int)) :
    (processStart ops pid segments : Prog (Kernel σ τ) Unit).Keeps k fun _ k' =>
      k'.table = k.table ∧ k.vfs.Left k'.vfs fun files =>
        ∃ row, (k.vfs.files row).filesystem = none ∧ (files row).filesystem ≠ none ∧
          ∀ other, other ≠ row → (files other).filesystem = (k.vfs.files other).filesystem := by
  intro _ k' ran
  simp only [processStart, Prog.bind_gets_apply] at ran
  obtain ⟨file, k₁, first, ran⟩ := Prog.bind_returned.1 ran
  obtain ⟨vfs, opened, rfl⟩ := Prog.zoom_returned.1 first
  obtain ⟨idle₁, usable₁, rows₁⟩ := vfsOpen_left idle ops _ _ _ opened
  simp only [Prog.ite_apply] at ran
  split at ran
  · rename_i low
    obtain ⟨table, idle₂, usable₂, rows₂⟩ :=
      loadSegments_quiet (k := { k with vfs := vfs }) ops idle₁ file segments _ _ ran
    rcases rows₁ with ⟨negative, -⟩ | ⟨row, -, -, free, taken, others⟩
    · omega
    · refine ⟨table, idle₂, usable₂.trans usable₁, row, free, ?_, fun other elsewhere => ?_⟩
      · rw [rows₂ row]
        exact taken
      · rw [rows₂ other]
        exact congrArg _ (others other elsewhere)
  · cases ran

theorem step_idle {w w' : World σ τ} {e : Event} (idle : w.kernel.vfs.Idle)
    (taken : step ops gcd w e = some w') : w'.kernel.vfs.Idle := by
  cases e with
  | call cur c =>
      simp only [step] at taken
      split at taken
      · obtain ⟨_, k, ran, rfl⟩ := after_some taken
        exact syscallHandle_idle ops gcd idle cur c _ _ ran
      · cases taken
  | start pid segments =>
      simp only [step] at taken
      split at taken
      · obtain ⟨_, k, ran, rfl⟩ := after_some taken
        exact (processStart_left ops idle pid segments _ _ ran).2.idle
      · cases taken
  | spawnFirst executable =>
      obtain ⟨_, k, ran, rfl⟩ := after_some taken
      exact onTable_idle idle _ _ _ ran

theorem idle_reachable {w : World σ τ} (reached : (system ops gcd).Reachable w) :
    w.kernel.vfs.Idle :=
  System.Reachable.invariant (I := fun w => w.kernel.vfs.Idle) (fun _ (boot : Boot _) => boot.idle)
    (fun _ _ _ idle taken => step_idle ops gcd idle taken) reached

end Left

end Buenos.Proc.Syscall
