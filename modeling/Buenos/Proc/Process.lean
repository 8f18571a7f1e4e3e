/-
# Proc.Process -- the process table

The table and the functions of proc/process.c that change it.  A table is indexed
by `process_id_t`, an `int`: `process_init` and `alloc_process_id` run their loops
up to and including `PROCESS_MAX_PROCESSES`, so index 128 stands for the memory
behind the table that those loops also touch.  When even that word is in use
`alloc_process_id` returns 129, which `process_spawn` takes for a process id.

The functions take the caller's `process_id` as an argument; -1 is the id of a
thread that runs no process.
-/
import Buenos.Lib.Libc
import Buenos.Theory.Prog
import Mathlib.Logic.Function.Basic

namespace Buenos.Proc

open Buenos.Lib Buenos.Theory

set_option autoImplicit false

def PROCESS_PTABLE_FULL : Int := -1
def PROCESS_ILLEGAL_JOIN : Int := -2

def PROCESS_MAX_FILELENGTH : Nat := 256
def PROCESS_MAX_PROCESSES : Nat := 128
def PROCESS_MAX_FILES : Nat := 10

/-- The `process_id` of a thread outside every process. -/
def kernelPid : Int := -1

inductive ProcessState where
  | free
  | running
  | zombie
  deriving DecidableEq, Repr

structure ProcessEntry where
  executable : Name
  state : ProcessState
  retval : Int
  parent : Int
  cFiles : Nat
  files : Nat → Int

abbrev ProcessTable := Int → ProcessEntry

/-- The open descriptors of an entry, in table order. -/
def ProcessEntry.fileList (entry : ProcessEntry) : List Int :=
  (List.range entry.cFiles).map entry.files

/-- The table as the loader leaves it: static memory is zero. -/
def zeroTable : ProcessTable := fun _ =>
  { executable := [], state := .free, retval := 0, parent := 0, cFiles := 0, files := fun _ => 0 }

/-- The parent field is not reset. -/
def processReset (table : ProcessTable) (pid : Int) : ProcessTable :=
  Function.update table pid
    { table pid with state := .free, executable := [], retval := 0, cFiles := 0 }

def processInit (table : ProcessTable) : ProcessTable :=
  (List.range (PROCESS_MAX_PROCESSES + 1)).foldl (fun t (i : Nat) => processReset t i) table

/-- The first free index, scanning one past the end of the table. -/
def firstFree (table : ProcessTable) : Option Nat :=
  (List.range (PROCESS_MAX_PROCESSES + 1)).find? fun i => (table i).state = .free

def allocProcessId : Prog ProcessTable Int := fun table =>
  match firstFree table with
  | some i => .returned (i, Function.update table i { table i with state := .running })
  | none => .returned (PROCESS_MAX_PROCESSES + 1, table)

/-- The part of `process_spawn` after the entry is reserved: the new entry gets its
executable name and its parent. -/
def spawnFill (table : ProcessTable) (cur pid : Int) (executable : Name) : ProcessTable :=
  Function.update table pid
    { table pid with
      executable := stringcopy executable PROCESS_MAX_FILELENGTH
      parent := cur }

/-- `thread_create` is taken to succeed: with a full thread table the assertion in
`thread_run` fails and the call does not return. -/
def processSpawn (cur : Int) (executable : Name) : Prog ProcessTable Int := do
  let pid ← allocProcessId
  if pid = PROCESS_MAX_PROCESSES then
    pure PROCESS_PTABLE_FULL
  else if pid > PROCESS_MAX_PROCESSES then
    Prog.stop .outOfBounds
  else do
    Prog.modify fun table => spawnFill table cur pid executable
    pure pid

/-- The test that `process_join` makes before it touches the table. -/
def joinAllowed (table : ProcessTable) (cur pid : Int) : Bool :=
  !(pid < 0 || pid ≥ PROCESS_MAX_PROCESSES || (table pid).parent ≠ cur)

/-- `process_finish`, as far as the table goes. -/
def processFinish (table : ProcessTable) (cur retval : Int) : ProcessTable :=
  Function.update table cur { table cur with state := .zombie, retval := retval }

/-- A `process_join` that need not wait: the child is a zombie already. -/
def processJoin (cur pid : Int) : Prog ProcessTable Int := fun table =>
  if joinAllowed table cur pid then
    if (table pid).state = .zombie then .returned ((table pid).retval, processReset table pid)
    else .stopped .asleep
  else .returned (PROCESS_ILLEGAL_JOIN, table)

/-! ## The file list of a process -/

/-- The test that the three list operations make first. -/
def fileListUsable (table : ProcessTable) (cur : Int) : Bool :=
  !(cur < 0 || cur > PROCESS_MAX_PROCESSES || (table cur).state ≠ .running)

def processAddFile (cur fd : Int) : Prog ProcessTable Int := fun table =>
  if fileListUsable table cur && (table cur).cFiles < PROCESS_MAX_FILES then
    .returned (0, Function.update table cur
      { table cur with
        files := Function.update (table cur).files (table cur).cFiles fd
        cFiles := (table cur).cFiles + 1 })
  else .returned (-1, table)

/-- The loop of `process_rem_file` from index `i` on.  The loop ends when `i` reaches
`c_files`, which does not grow, so the initial `c_files` is enough `fuel`. -/
def remLoop (fd : Int) : Nat → Nat → ProcessEntry → ProcessEntry
  | 0, _, entry => entry
  | fuel + 1, i, entry =>
      if i < entry.cFiles then
        if entry.files i = fd then
          remLoop fd fuel (i + 1)
            { entry with
              files := Function.update entry.files i (entry.files (entry.cFiles - 1))
              cFiles := entry.cFiles - 1 }
        else remLoop fd fuel (i + 1) entry
      else entry

/-- A descriptor that is not in the list is no error. -/
def processRemFile (cur fd : Int) : Prog ProcessTable Int := fun table =>
  if fileListUsable table cur then
    .returned (0, Function.update table cur (remLoop fd (table cur).cFiles 0 (table cur)))
  else .returned (-1, table)

def processCheckFile (cur fd : Int) : Prog ProcessTable Int := fun table =>
  if fileListUsable table cur && (List.range (table cur).cFiles).any fun i => (table cur).files i = fd
  then .returned (0, table)
  else .returned (-1, table)

theorem joinAllowed_iff {table : ProcessTable} {cur pid : Int} :
    joinAllowed table cur pid = true ↔
      0 ≤ pid ∧ pid < PROCESS_MAX_PROCESSES ∧ (table pid).parent = cur := by
  simp only [joinAllowed, Bool.not_eq_true', Bool.or_eq_false_iff, decide_eq_false_iff_not,
    ne_eq, Decidable.not_not]
  omega

theorem processInit_zeroTable : processInit zeroTable = zeroTable := by
  have reset : ∀ p, processReset zeroTable p = zeroTable := fun p =>
    Function.update_eq_self p zeroTable
  unfold processInit
  generalize List.range (PROCESS_MAX_PROCESSES + 1) = indices
  induction indices with
  | nil => rfl
  | cons i rest ih => rw [List.foldl_cons, reset, ih]

/-! ## Removing from a list of distinct descriptors -/

theorem mem_fileList {entry : ProcessEntry} {fd : Int} :
    fd ∈ entry.fileList ↔ ∃ i, i < entry.cFiles ∧ entry.files i = fd := by
  simp [ProcessEntry.fileList]

theorem processCheckFile_apply (cur fd : Int) (table : ProcessTable) :
    processCheckFile cur fd table =
      .returned (if fileListUsable table cur ∧ fd ∈ (table cur).fileList then 0 else -1, table) := by
  have listed : (List.range (table cur).cFiles).any (fun i => decide ((table cur).files i = fd)) =
      true ↔ fd ∈ (table cur).fileList := by
    simp [mem_fileList]
  unfold processCheckFile
  by_cases usable : fileListUsable table cur = true
  · by_cases member : fd ∈ (table cur).fileList
    · simp [usable, member, listed.2 member]
    · simp [usable, member, mt listed.1 member]
  · simp [usable]

/-- No descriptor is listed twice. -/
def ProcessEntry.Distinct (entry : ProcessEntry) : Prop :=
  ∀ i j, i < entry.cFiles → j < entry.cFiles → entry.files i = entry.files j → i = j

theorem remLoop_absent {fd : Int} (entry : ProcessEntry) (fuel i : Nat)
    (absent : ∀ j, i ≤ j → j < entry.cFiles → entry.files j ≠ fd) :
    remLoop fd fuel i entry = entry := by
  induction fuel generalizing i with
  | zero => rfl
  | succ fuel ih =>
      rw [remLoop]
      split
      · rename_i inside
        rw [if_neg (absent i (Nat.le_refl i) inside)]
        exact ih (i + 1) fun j low => absent j (by omega)
      · rfl

/-- The entry with the descriptor at index `k` replaced by the last one. -/
def ProcessEntry.dropFile (entry : ProcessEntry) (k : Nat) : ProcessEntry :=
  { entry with
    files := Function.update entry.files k (entry.files (entry.cFiles - 1))
    cFiles := entry.cFiles - 1 }

theorem remLoop_present {entry : ProcessEntry} (distinct : entry.Distinct) {k : Nat}
    (inside : k < entry.cFiles) (fuel i : Nat) (before : i ≤ k) (enough : k < i + fuel) :
    remLoop (entry.files k) fuel i entry = entry.dropFile k := by
  induction fuel generalizing i with
  | zero => omega
  | succ fuel ih =>
      rw [remLoop, if_pos (by omega)]
      by_cases here : i = k
      · subst here
        rw [if_pos rfl]
        refine remLoop_absent (entry.dropFile i) fuel (i + 1) fun j low high same => ?_
        simp only [ProcessEntry.dropFile] at high same
        rw [Function.update_of_ne (by omega)] at same
        have := distinct j i (by omega) inside same
        omega
      · rw [if_neg (fun same => here (distinct i k (by omega) inside same))]
        exact ih (i + 1) (by omega) (by omega)

theorem mem_dropFile {entry : ProcessEntry} (distinct : entry.Distinct) {k : Nat}
    (inside : k < entry.cFiles) {fd : Int} :
    fd ∈ (entry.dropFile k).fileList ↔ fd ∈ entry.fileList ∧ fd ≠ entry.files k := by
  simp only [mem_fileList, ProcessEntry.dropFile]
  constructor
  · rintro ⟨i, low, rfl⟩
    by_cases here : i = k
    · subst here
      rw [Function.update_self]
      refine ⟨⟨entry.cFiles - 1, by omega, rfl⟩, fun same => ?_⟩
      have := distinct _ _ (by omega) inside same
      omega
    · rw [Function.update_of_ne here]
      exact ⟨⟨i, by omega, rfl⟩, fun same => here (distinct i k (by omega) inside same)⟩
  · rintro ⟨⟨i, low, rfl⟩, other⟩
    have elsewhere : i ≠ k := fun same => other (same ▸ rfl)
    by_cases last : i = entry.cFiles - 1
    · exact ⟨k, by omega, by rw [Function.update_self, last]⟩
    · exact ⟨i, by omega, Function.update_of_ne elsewhere _ _⟩

theorem distinct_dropFile {entry : ProcessEntry} (distinct : entry.Distinct) {k : Nat}
    (inside : k < entry.cFiles) : (entry.dropFile k).Distinct := by
  intro i j low high same
  simp only [ProcessEntry.dropFile] at low high same
  by_cases first : i = k <;> by_cases second : j = k
  · omega
  · subst first
    rw [Function.update_self, Function.update_of_ne second] at same
    have := distinct _ _ (by omega) (by omega) same
    omega
  · subst second
    rw [Function.update_self, Function.update_of_ne first] at same
    have := distinct _ _ (by omega) (by omega) same
    omega
  · rw [Function.update_of_ne first, Function.update_of_ne second] at same
    exact distinct i j (by omega) (by omega) same

/-! ## The scan for a free entry -/

theorem firstFree_some {table : ProcessTable} {i : Nat} (found : firstFree table = some i) :
    i ≤ PROCESS_MAX_PROCESSES ∧ (table i).state = .free := by
  have member := List.mem_of_find?_eq_some found
  have free := List.find?_some found
  simp only [List.mem_range, decide_eq_true_eq] at member free
  exact ⟨by omega, free⟩

theorem allocProcessId_cases {table table' : ProcessTable} {pid : Int}
    (ran : allocProcessId table = .returned (pid, table')) :
    (∃ i : Nat, i ≤ PROCESS_MAX_PROCESSES ∧ pid = i ∧ (table pid).state = .free ∧
        table' = Function.update table pid { table pid with state := .running }) ∨
      (pid = PROCESS_MAX_PROCESSES + 1 ∧ table' = table) := by
  unfold allocProcessId at ran
  split at ran
  · rename_i i found
    obtain ⟨bound, free⟩ := firstFree_some found
    simp only [Outcome.returned.injEq, Prod.mk.injEq] at ran
    obtain ⟨rfl, rfl⟩ := ran
    exact Or.inl ⟨i, bound, rfl, free, rfl⟩
  · simp only [Outcome.returned.injEq, Prod.mk.injEq] at ran
    exact Or.inr ⟨ran.1.symm, ran.2.symm⟩

end Buenos.Proc
