/-
# Proc.Spawn -- process_spawn with the thread table

`process_spawn` takes an entry of the process table, then a row of the thread table, and
hands the thread to the scheduler; either table can be full.  Here it runs on both, with the
columns of the thread table that it reads and fills in: the process of a thread, and what
the thread's first context will call.

`thread_create` returns a negative id when no row is free.  `process_spawn` passes that on
to `thread_run`, whose assertion fails, and keeps the process entry.
-/
import Buenos.Kernel.Interleaving
import Buenos.Proc.ProcessIds

namespace Buenos.Proc

open Buenos.Lib Buenos.Theory Buenos.Kernel

set_option autoImplicit false

/-- A thread's first context: the program counter and the argument register. -/
structure Context where
  pc : Word
  a0 : Word

structure Spawner where
  processes : ProcessTable
  threads : Threads
  processId : Int → Int
  context : Int → Context

namespace Spawner

def onProcesses {α : Type} (m : Prog ProcessTable α) : Prog Spawner α :=
  Prog.zoom (fun s => s.processes) (fun processes s => { s with processes := processes }) m

def onThreads {α : Type} (m : Prog Threads α) : Prog Spawner α :=
  Prog.zoom (fun s => s.threads) (fun threads s => { s with threads := threads }) m

/-- `process_get_current_process` on `cpu` -/
def currentProcess (cpu : Nat) (s : Spawner) : Int :=
  s.processId (s.threads.schedulerCurrentThread cpu)

/-- `thread_create`, with what it writes to the new row. -/
def threadCreate (func arg : Word) : Prog Spawner Int := do
  let tid ← onThreads Kernel.threadCreate
  if tid < 0 then pure tid
  else do
    onThreads (threadInit tid)
    Prog.modify fun s =>
      { s with
        processId := Function.update s.processId tid kernelPid
        context := Function.update s.context tid ⟨func, arg⟩ }
    pure tid

/-- `processStart` is the address of `process_start`. -/
def processSpawn (processStart : Word) (cpu : Nat) (executable : Name) : Prog Spawner Int := do
  let pid ← onProcesses allocProcessId
  if pid = PROCESS_MAX_PROCESSES then pure PROCESS_PTABLE_FULL
  else if pid > PROCESS_MAX_PROCESSES then Prog.stop .outOfBounds
  else do
    let cur ← Prog.gets (currentProcess cpu)
    onProcesses (Prog.modify fun table => spawnFill table cur pid executable)
    let thread ← threadCreate processStart (BitVec.ofInt 32 pid)
    onThreads (threadRun thread)
    pure pid

end Spawner

/-! ## What a spawn should do -/

/-- The free row `tid` has been made ready; where the table was in order, the thread is the
last of the ready list now and nothing else has moved. -/
structure Scheduled (s t : Threads) (tid : Nat) : Prop where
  found : freeTid s = some tid
  ready : t.state tid = .ready
  queued : ∀ cpus birth ready chain, Placed cpus s birth ready chain →
    ∃ birth', Placed cpus t birth' (ready ++ [(tid : Int)]) chain

/-- A free entry is running now, for the caller and in a new thread. -/
structure Spawned (processStart : Word) (cpu : Nat) (s t : Spawner) (pid : Int) : Prop where
  inTable : InTable pid
  wasFree : (s.processes pid).state = .free
  running : (t.processes pid).state = .running
  parent : (t.processes pid).parent = s.currentProcess cpu
  thread : ∃ tid : Nat, Scheduled s.threads t.threads tid ∧
    t.context tid = ⟨processStart, BitVec.ofInt 32 pid⟩

/-- The call returns without a failed assertion: it has started a process, or the table is
what it was. -/
def SpawnsCleanly (processStart : Word) (cpu : Nat) (executable : Name) (s : Spawner) : Prop :=
  (Spawner.processSpawn processStart cpu executable).Ends s fun result t =>
    Spawned processStart cpu s t result ∨
      (result < 0 ∧ ∀ p, InTable p → t.processes p = s.processes p)

/-- What the code needs: a free entry and a free row, or no free entry and a word behind the
table that passes for one. -/
def CanSpawn (s : Spawner) : Prop :=
  (HasFree s.processes ∧ freeTid s.threads ≠ none) ∨
    (¬ HasFree s.processes ∧ (s.processes PROCESS_MAX_PROCESSES).state = .free)

/-! ## The new thread -/

section Thread

variable {s : Threads} {tid : Nat}

/-- The row after `thread_create`. -/
def created (s : Threads) (tid : Nat) : Threads :=
  (({ s.setState tid .nonready with nextTid := (tid + 1) % CONFIG_MAX_THREADS } : Threads).setSleepsOn
    tid 0).setNext tid (-1)

theorem threadRun_ready {t : Int} (low : 0 < t) (high : t < CONFIG_MAX_THREADS) (s : Threads) :
    ∃ u, threadRun t s = .returned ((), u) ∧ u.state t = .ready := by
  have notIdle : decide (t ≠ IDLE_THREAD_TID) = true :=
    decide_eq_true (Int.ne_of_gt low)
  have inside : (decide (0 ≤ t) && decide (t < CONFIG_MAX_THREADS)) = true := by
    simp only [Bool.and_eq_true, decide_eq_true_eq]
    omega
  let queued : Threads :=
    if s.tail < 0 then { s.setNext t (-1) with head := t, tail := t }
    else { (s.setNext s.tail t).setNext t (-1) with tail := t }
  refine ⟨queued.setState t .ready, ?_, by simp [Threads.setState]⟩
  rw [threadRun, schedulerAddReady, schedulerAddToReadyList, Prog.bind_assoc,
    Prog.bind_assert_apply, if_pos notIdle, Prog.bind_assoc, Prog.bind_assert_apply,
    if_pos inside]
  rfl

theorem threadRun_created (found : freeTid s = some tid) :
    ∃ t, threadRun tid (created s tid) = .returned ((), t) ∧ Scheduled s t tid := by
  obtain ⟨⟨low, high⟩, free⟩ := Placed.freeTid_found found
  obtain ⟨t, ran, ready⟩ := threadRun_ready low high (created s tid)
  refine ⟨t, ran, found, ready, fun cpus birth list chain placed => ?_⟩
  obtain ⟨u, result, made, placed₁, -⟩ := placed.create
  have both : Outcome.returned ((tid : Int),
      { s.setState tid .nonready with nextTid := (tid + 1) % CONFIG_MAX_THREADS }) =
        .returned (result, u) := by
    rw [← made, Kernel.threadCreate, Prog.bind_gets_apply, found]
    rfl
  obtain ⟨rfl, rfl⟩ := Prod.mk.inj (Outcome.returned.inj both)
  have reserved : birthAfter birth (tid : Int) .create tid = .reserved := by
    simp [birthAfter]
  obtain ⟨v, inited, placed₂, -⟩ := placed₁.init reserved
  obtain ⟨-, rfl⟩ := Prod.mk.inj (Outcome.returned.inj inited)
  obtain ⟨w, added, placed₃, -⟩ := placed₂.addReady (t := tid) (Function.update_self _ _ _)
  obtain ⟨-, rfl⟩ := Prod.mk.inj (Outcome.returned.inj (ran.symm.trans added))
  exact ⟨_, placed₃⟩

end Thread

/-! ## The call -/

section Calls

variable {s : Spawner} {processStart : Word} {cpu : Nat} {executable : Name}

/-- The allocation, on both tables. -/
theorem onProcesses_alloc (s : Spawner) :
    ∃ pid table, allocProcessId s.processes = .returned (pid, table) ∧
      Spawner.onProcesses allocProcessId s = .returned (pid, { s with processes := table }) := by
  unfold allocProcessId
  cases found : firstFree s.processes with
  | none => exact ⟨_, _, rfl, Prog.zoom_of_returned (by rw [found])⟩
  | some i => exact ⟨_, _, rfl, Prog.zoom_of_returned (by rw [found])⟩

/-- A free entry of the table is found before the word behind it. -/
theorem alloc_hasFree {table table' : ProcessTable} {pid : Int} (free : HasFree table)
    (ran : allocProcessId table = .returned (pid, table')) :
    InTable pid ∧ (table pid).state = .free ∧
      table' = Function.update table pid { table pid with state := .running } := by
  obtain ⟨k, low, here, before⟩ := free.first
  have found : firstFree table = some k :=
    List.find?_range_eq_some.2 ⟨decide_eq_true here, List.mem_range.2 (by omega), fun j less => by
      simpa using before j less⟩
  rw [allocProcessId, found] at ran
  obtain ⟨rfl, rfl⟩ := Prod.mk.inj (Outcome.returned.inj ran)
  exact ⟨⟨Int.natCast_nonneg k, Int.ofNat_lt.2 low⟩, here, rfl⟩

/-- With the table full, the word behind it decides. -/
theorem alloc_full {table table' : ProcessTable} {pid : Int} (full : ¬ HasFree table)
    (ran : allocProcessId table = .returned (pid, table')) :
    (pid = PROCESS_MAX_PROCESSES ∧ (table PROCESS_MAX_PROCESSES).state = .free ∧
        table' = Function.update table pid { table pid with state := .running }) ∨
      (pid = PROCESS_MAX_PROCESSES + 1 ∧ (table PROCESS_MAX_PROCESSES).state ≠ .free) := by
  unfold allocProcessId at ran
  split at ran
  · rename_i k found
    obtain ⟨bound, free⟩ := firstFree_some found
    obtain ⟨rfl, rfl⟩ := Prod.mk.inj (Outcome.returned.inj ran)
    obtain rfl : k = PROCESS_MAX_PROCESSES := by
      by_contra other
      exact full ⟨k, ⟨Int.natCast_nonneg k, by omega⟩, free⟩
    exact .inl ⟨rfl, free, rfl⟩
  · rename_i none_
    obtain ⟨rfl, -⟩ := Prod.mk.inj (Outcome.returned.inj ran)
    refine .inr ⟨rfl, ?_⟩
    simpa using List.find?_range_eq_none.1 none_ PROCESS_MAX_PROCESSES (Nat.lt_succ_self _)

/-- The thread that the entry gets, when a row is free. -/
theorem threadCreate_found {tid : Nat} (found : freeTid s.threads = some tid) (func arg : Word) :
    Spawner.threadCreate func arg s = .returned ((tid : Int),
      { s with
        threads := created s.threads tid
        processId := Function.update s.processId tid kernelPid
        context := Function.update s.context tid ⟨func, arg⟩ }) := by
  have made : Kernel.threadCreate s.threads = .returned ((tid : Int),
      { s.threads.setState tid .nonready with nextTid := (tid + 1) % CONFIG_MAX_THREADS }) := by
    rw [Kernel.threadCreate, Prog.bind_gets_apply, found]
    rfl
  have zoomed : Spawner.onThreads Kernel.threadCreate s = .returned ((tid : Int),
      { s with
        threads := { s.threads.setState tid .nonready with
          nextTid := (tid + 1) % CONFIG_MAX_THREADS } }) := Prog.zoom_of_returned made
  rw [Spawner.threadCreate, Prog.bind_of_returned zoomed, if_neg (by omega)]
  rfl

theorem threadCreate_none (full : freeTid s.threads = none) (func arg : Word) :
    Spawner.threadCreate func arg s = .returned (-1, s) := by
  have made : Kernel.threadCreate s.threads = .returned (-1, s.threads) := by
    rw [Kernel.threadCreate, Prog.bind_gets_apply, full]
    rfl
  have zoomed : Spawner.onThreads Kernel.threadCreate s = .returned (-1, s) :=
    Prog.zoom_of_returned made
  rw [Spawner.threadCreate, Prog.bind_of_returned zoomed, if_pos (by decide)]
  rfl

/-- The assertion of the scheduler that a negative id meets. -/
theorem threadRun_negative (threads : Threads) : threadRun (-1) threads = .stopped .assertion := by
  rw [threadRun, schedulerAddReady, schedulerAddToReadyList, Prog.bind_assoc,
    Prog.bind_assert_apply, if_pos (by decide), Prog.bind_assoc, Prog.bind_assert_apply,
    if_neg (by decide)]

/-- What is left to do once the entry has its name and parent. -/
def spawnThread (processStart : Word) (pid : Int) : Prog Spawner Int := do
  let thread ← Spawner.threadCreate processStart (BitVec.ofInt 32 pid)
  Spawner.onThreads (threadRun thread)
  pure pid

theorem spawnThread_none (s : Spawner) (processStart : Word) (pid : Int)
    (full : freeTid s.threads = none) :
    spawnThread processStart pid s = .stopped .assertion := by
  rw [spawnThread, Prog.bind_of_returned (threadCreate_none full _ _)]
  refine Prog.bind_of_stopped ?_
  rw [Spawner.onThreads, Prog.zoom, threadRun_negative]

theorem spawnThread_found (s : Spawner) (processStart : Word) (pid : Int) {tid : Nat}
    (found : freeTid s.threads = some tid) :
    ∃ threads, spawnThread processStart pid s = .returned (pid,
        { s with
          threads := threads
          processId := Function.update s.processId tid kernelPid
          context := Function.update s.context tid ⟨processStart, BitVec.ofInt 32 pid⟩ }) ∧
      Scheduled s.threads threads tid := by
  obtain ⟨threads, ran, scheduled⟩ := threadRun_created found
  refine ⟨threads, ?_, scheduled⟩
  rw [spawnThread, Prog.bind_of_returned (threadCreate_found found _ _)]
  exact Prog.bind_of_returned (Prog.zoom_of_returned ran)

/-- The call once an entry of the table is taken. -/
theorem processSpawn_taken (processStart : Word) (cpu : Nat) (executable : Name) {pid : Int}
    {table : ProcessTable} (inTable : InTable pid)
    (alloc : Spawner.onProcesses allocProcessId s = .returned (pid, { s with processes := table })) :
    Spawner.processSpawn processStart cpu executable s = spawnThread processStart pid
      { s with processes := spawnFill table (s.currentProcess cpu) pid executable } := by
  have below := inTable.2
  rw [Spawner.processSpawn, Prog.bind_of_returned alloc, if_neg (by omega), if_neg (by omega)]
  rfl

theorem spawnFill_running (table : ProcessTable) (pid cur : Int) (executable : Name) :
    (spawnFill (Function.update table pid { table pid with state := .running }) cur pid
        executable pid).state = .running ∧
      (spawnFill (Function.update table pid { table pid with state := .running }) cur pid
        executable pid).parent = cur := by
  simp [spawnFill]

/-- An entry is free, but no row: the assertion in the scheduler fails. -/
theorem processSpawn_stopped (free : HasFree s.processes) (row : freeTid s.threads = none) :
    Spawner.processSpawn processStart cpu executable s = .stopped .assertion := by
  obtain ⟨pid, table, alloc, ran⟩ := onProcesses_alloc s
  obtain ⟨inTable, -⟩ := alloc_hasFree free alloc
  let taken : Spawner :=
    { s with processes := spawnFill table (s.currentProcess cpu) pid executable }
  have failed : spawnThread processStart pid taken = .stopped .assertion :=
    spawnThread_none taken processStart pid row
  rw [processSpawn_taken processStart cpu executable inTable ran, failed]

/-- **process_spawn**, exactly: it fails cleanly unless an entry is free and no row is, or no
entry is free and the word behind the table is in use. -/
theorem processSpawn_clean_iff (processStart : Word) (cpu : Nat) (executable : Name)
    (s : Spawner) : SpawnsCleanly processStart cpu executable s ↔ CanSpawn s := by
  obtain ⟨pid, table, alloc, ran⟩ := onProcesses_alloc s
  by_cases free : HasFree s.processes
  · obtain ⟨inTable, wasFree, filled⟩ := alloc_hasFree free alloc
    have spawn := processSpawn_taken processStart cpu executable inTable ran
    let taken : Spawner :=
      { s with processes := spawnFill table (s.currentProcess cpu) pid executable }
    cases row : freeTid s.threads with
    | none =>
        refine iff_of_false ?_ ?_
        · rintro ⟨result, t, returned, -⟩
          rw [processSpawn_stopped free row] at returned
          cases returned
        · rintro (⟨-, some_⟩ | ⟨full, -⟩)
          · exact some_ row
          · exact full free
    | some tid =>
        refine iff_of_true ?_ (.inl ⟨free, by rw [row]; simp⟩)
        obtain ⟨threads, returned, scheduled⟩ :=
          spawnThread_found taken processStart pid row
        obtain ⟨running, parent⟩ :=
          spawnFill_running s.processes pid (s.currentProcess cpu) executable
        rw [← filled] at running parent
        exact ⟨pid, _, spawn.trans returned, .inl
          { inTable := inTable
            wasFree := wasFree
            running := running
            parent := parent
            thread := ⟨tid, scheduled, Function.update_self _ _ _⟩ }⟩
  · rcases alloc_full free alloc with ⟨full, behind, filled⟩ | ⟨rfl, behind⟩
    · have refused : Spawner.processSpawn processStart cpu executable s =
          .returned (PROCESS_PTABLE_FULL, { s with processes := table }) := by
        rw [Spawner.processSpawn, Prog.bind_of_returned ran, if_pos full]
        rfl
      refine iff_of_true ⟨PROCESS_PTABLE_FULL, _, refused, .inr ⟨by decide, fun p inTable => ?_⟩⟩
        (.inr ⟨free, behind⟩)
      rw [filled, full]
      exact Function.update_of_ne (Int.ne_of_lt inTable.2) _ _
    · refine iff_of_false ?_ ?_
      · rintro ⟨result, t, returned, -⟩
        rw [Spawner.processSpawn, Prog.bind_of_returned ran, if_neg (by omega),
          if_pos (by omega)] at returned
        cases returned
      · rintro (⟨some_, -⟩ | ⟨-, unused⟩)
        · exact free some_
        · exact behind unused

/-- A call that returns has done to the process table what the table's own model of it does. -/
theorem processSpawn_processes {result : Int} {t : Spawner}
    (ran : Spawner.processSpawn processStart cpu executable s = .returned (result, t)) :
    Proc.processSpawn (s.currentProcess cpu) executable s.processes =
      .returned (result, t.processes) := by
  obtain ⟨pid, u, alloc, rest⟩ := Prog.bind_returned.1 ran
  obtain ⟨table, taken, rfl⟩ := Prog.zoom_returned.1 alloc
  rw [Proc.processSpawn, Prog.bind_of_returned taken]
  by_cases full : pid = PROCESS_MAX_PROCESSES
  · rw [if_pos full] at rest ⊢
    obtain ⟨rfl, rfl⟩ := Prod.mk.inj (Outcome.returned.inj rest)
    rfl
  · rw [if_neg full] at rest ⊢
    by_cases past : pid > PROCESS_MAX_PROCESSES
    · rw [if_pos past] at rest
      cases rest
    · rw [if_neg past] at rest ⊢
      let filled : Spawner :=
        { s with processes := spawnFill table (s.currentProcess cpu) pid executable }
      have rest : spawnThread processStart pid filled = .returned (result, t) := rest
      cases row : freeTid filled.threads with
      | none =>
          rw [spawnThread_none filled processStart pid row] at rest
          cases rest
      | some tid =>
          obtain ⟨threads, returned, -⟩ :=
            spawnThread_found filled processStart pid row
          obtain ⟨rfl, rfl⟩ := Prod.mk.inj (Outcome.returned.inj (returned.symm.trans rest))
          rfl

end Calls

/-! ## A full thread table -/

/-- The thread table after `n` calls of `thread_create`. -/
def manyThreads : Nat → Threads
  | 0 => threadTableInit
  | n + 1 =>
      match Kernel.threadCreate (manyThreads n) with
      | .returned (_, threads) => threads
      | .stopped _ => manyThreads n

/-- No process yet, and a thread in every row. -/
def noThreadLeft : Spawner where
  processes := zeroTable
  threads := manyThreads 31
  processId := fun _ => kernelPid
  context := fun _ => ⟨0, 0⟩

/-- **The second table is full**: the call ends in a failed assertion of the scheduler. -/
theorem processSpawn_noThreadLeft : ¬ SpawnsCleanly 0 0 [] noThreadLeft := by
  have row : freeTid noThreadLeft.threads = none := by decide +kernel
  have free : HasFree noThreadLeft.processes := ⟨0, ⟨by decide, by decide⟩, rfl⟩
  rintro ⟨result, t, returned, -⟩
  rw [processSpawn_stopped free row] at returned
  cases returned

end Buenos.Proc
