/-
# Vm.AddressSpace -- processes, context switches and the TLB

Any number of CPUs, each with a TLB, and the threads that run on them.  A thread runs
other kernel code, or it is somewhere in `process_start` and the process it starts.
`EntryHi` is its ASID field; the page pair in it matters to no match.

Page tables are tagged with the thread id, a context switch loads the process id, a
refill loads the tag of the entry it writes, and nothing is ever flushed.  So a
process translates through its own page table only as long as no row is left from
another one with a tag that is its thread id or its process id (`OwnAsids`), and as
long as the entries behind its rows do not change.

The scheduler may pick any ready thread, and interrupts may come anywhere.  A run ends
where the code panics.
-/
import Buenos.Proc.Process
import Buenos.Theory.Run
import Buenos.Vm.Pagetable

namespace Buenos.Vm

open Buenos.Lib Buenos.Proc Buenos.Theory

set_option autoImplicit false

def CONFIG_MAX_THREADS : Nat := 32
def IDLE_THREAD_TID : Nat := 0

inductive ThreadState where
  | free
  | running
  | ready
  | sleeping
  | nonready
  | dying
  deriving DecidableEq

/-- Where a thread is: in kernel code of its own, before `process_start(pid)`, in it, in
the process, or after `process_finish`. -/
inductive Phase where
  | kernel
  | spawned (pid : Int)
  | entered
  | mapping
  | loading
  | protecting
  | user
  | finished
  deriving DecidableEq

/-- An entry of the thread table, with the process id that a `process_spawn` of the
thread has allocated and not yet passed on. -/
structure Thread where
  state : ThreadState
  sleepsOn : Bool
  pagetable : Option Pagetable
  processId : Int
  phase : Phase
  spawning : Option Int

structure Cpu where
  current : Nat
  asid : BitVec 8
  tlb : Nat → TlbEntry

structure State where
  cpus : Nat → Cpu
  threads : Nat → Thread
  nextTid : Nat
  table : ProcessTable

def setThread (s : State) (t : Nat) (thread : Thread) : State :=
  { s with threads := Function.update s.threads t thread }

def setCpu (s : State) (c : Nat) (cpu : Cpu) : State :=
  { s with cpus := Function.update s.cpus c cpu }

/-! ## The hardware -/

def tlbSetAsid (cpu : Cpu) (asid : BitVec 32) : Cpu := { cpu with asid := asid.setWidth 8 }

/-- `_tlb_write_random` goes through `EntryHi`. -/
def tlbWriteRandom (cpu : Cpu) (row : Nat) (entry : TlbEntry) : Cpu :=
  { cpu with asid := entry.asid, tlb := Function.update cpu.tlb row entry }

/-- A row with both global bits zero translates an address. -/
def rowMatches (cpu : Cpu) (vaddr : BitVec 32) (row : TlbEntry) : Bool :=
  row.vpn2 = vpn2Of vaddr && row.asid = cpu.asid && tlbEntryIsValid row vaddr

def tlbHit (rows : Nat) (cpu : Cpu) (vaddr : BitVec 32) : Bool :=
  (List.range rows).any fun k => rowMatches cpu vaddr (cpu.tlb k)

/-! ## Threads -/

/-- The search of `thread_create`, from `next_tid` around. -/
def freeThread (s : State) : Option Nat :=
  ((List.range CONFIG_MAX_THREADS).map fun i => (i + s.nextTid) % CONFIG_MAX_THREADS).find? fun t =>
    t ≠ IDLE_THREAD_TID && (s.threads t).state = .free

/-- `thread_create` and `thread_run`; without a free thread the latter panics. -/
def threadCreate (s : State) (phase : Phase) : Option State :=
  (freeThread s).map fun t =>
    { setThread s t
        { state := .ready, sleepsOn := false, pagetable := none, processId := kernelPid
          phase := phase, spawning := none } with
      nextTid := (t + 1) % CONFIG_MAX_THREADS }

/-- What `scheduler_schedule` makes of the thread it takes off the CPU. -/
def leave (thread : Thread) : Thread :=
  { thread with
    state :=
      if thread.state = .dying then .free else if thread.sleepsOn then .sleeping else .ready }

/-- `interrupt_handle` with a timer interrupt or a requested switch, when the scheduler
selects `next`. -/
def interruptHandle (s : State) (c next : Nat) : Option State :=
  let s := setThread s (s.cpus c).current (leave (s.threads (s.cpus c).current))
  if next = IDLE_THREAD_TID ∨ (s.threads next).state = .ready then
    let thread := s.threads next
    let cpu := { s.cpus c with current := next }
    some (setCpu (setThread s next { thread with state := .running }) c
      (if thread.processId = kernelPid then tlbSetAsid cpu (BitVec.ofNat 32 (next ||| 8))
      else tlbSetAsid cpu (BitVec.ofInt 32 thread.processId)))
  else none

/-- The thread that executes on CPU `c`. -/
def runner (s : State) (c : Nat) : Option Nat :=
  let t := (s.cpus c).current
  if t ≠ IDLE_THREAD_TID ∧ (s.threads t).state = .running then some t else none

def sleep (thread : Thread) : Option Thread := some { thread with sleepsOn := true }

def wake (thread : Thread) : Option Thread :=
  if thread.sleepsOn then
    some { thread with
      sleepsOn := false, state := if thread.state = .sleeping then .ready else thread.state }
  else none

/-- The assertion of `thread_finish` is that the mappings have been cleared. -/
def threadFinish (thread : Thread) : Option Thread :=
  if (thread.phase = .kernel ∨ thread.phase = .finished) ∧ thread.pagetable.isNone then
    some { thread with state := .dying }
  else none

/-! ## Processes -/

/-- Kernel code that may spawn and join: a kernel thread's, or that of a system call. -/
def callable (thread : Thread) : Bool := thread.phase = .kernel || thread.phase = .user

/-- `process_spawn` up to `thread_create`. -/
def spawnAlloc (s : State) (t : Nat) (executable : Name) : Option State :=
  if callable (s.threads t) ∧ (s.threads t).spawning = none then
    match processSpawn (s.threads t).processId executable s.table with
    | .returned (pid, table) =>
        if pid = PROCESS_PTABLE_FULL then some { s with table := table }
        else some { setThread s t { s.threads t with spawning := some pid } with table := table }
    | .stopped _ => none
  else none

def spawnThread (s : State) (t : Nat) : Option State :=
  (s.threads t).spawning.bind fun pid =>
    threadCreate (setThread s t { s.threads t with spawning := none }) (.spawned pid)

/-- `my_entry->process_id = pid` -/
def enter (thread : Thread) : Option Thread :=
  match thread.phase with
  | .spawned pid =>
      if thread.pagetable.isNone then some { thread with processId := pid, phase := .entered }
      else none
  | _ => none

/-- The page table is created and the thread id becomes the ASID. -/
def createTable (s : State) (c t : Nat) (page : Nat → TlbEntry) : Option State :=
  if (s.threads t).phase = .entered then
    some (setCpu
      (setThread s t { s.threads t with
        pagetable := some (vmCreatePagetable (BitVec.ofNat 32 t) page), phase := .mapping })
      c (tlbSetAsid (s.cpus c) (BitVec.ofNat 32 t)))
  else none

def map (thread : Thread) (physaddr vaddr : BitVec 32) : Option Thread :=
  if thread.phase = .mapping then
    thread.pagetable.bind fun table =>
      (vmMap table physaddr vaddr true).map fun table => { thread with pagetable := some table }
  else none

def protect (thread : Thread) (vaddr : BitVec 32) : Option Thread :=
  if thread.phase = .protecting then
    thread.pagetable.bind fun table =>
      (vmSetDirty table vaddr false).map fun table => { thread with pagetable := some table }
  else none

/-- From mapping the pages to filling them, protecting the read-only ones and
`thread_goto_userland`. -/
def advance (thread : Thread) : Option Thread :=
  match thread.phase with
  | .mapping => some { thread with phase := .loading }
  | .loading => some { thread with phase := .protecting }
  | .protecting => some { thread with phase := .user }
  | _ => none

/-- An access to `vaddr` finds no row, and the exception handler writes row `k`. -/
def refill (rows : Nat) (s : State) (c t : Nat) (vaddr : BitVec 32) (k : Nat) : Option State :=
  if ((s.threads t).phase = .loading ∨ (s.threads t).phase = .user) ∧ k < rows ∧
      tlbHit rows (s.cpus c) vaddr = false then
    (s.threads t).pagetable.bind fun table =>
      (tlbStoreException table vaddr).map fun entry => setCpu s c (tlbWriteRandom (s.cpus c) k entry)
  else none

def finish (s : State) (t : Nat) (retval : Int) : Option State :=
  if (s.threads t).phase = .user ∧ (s.threads t).spawning = none then
    some { setThread s t { s.threads t with pagetable := none, phase := .finished } with
      table := processFinish s.table (s.threads t).processId retval }
  else none

/-- A `process_join` that returns. -/
def join (s : State) (t : Nat) (pid : Int) : Option State :=
  if callable (s.threads t) then
    match processJoin (s.threads t).processId pid s.table with
    | .returned (_, table) => some { s with table := table }
    | .stopped _ => none
  else none

/-! ## The system -/

inductive Act where
  | createThread
  | interrupt (c next : Nat)
  | sleep (c : Nat)
  | wake (t : Nat)
  | threadFinish (c : Nat)
  | spawnAlloc (c : Nat) (executable : Name)
  | spawnThread (c : Nat)
  | enter (c : Nat)
  | createTable (c : Nat) (page : Nat → TlbEntry)
  | map (c : Nat) (physaddr vaddr : BitVec 32)
  | protect (c : Nat) (vaddr : BitVec 32)
  | advance (c : Nat)
  | refill (c : Nat) (vaddr : BitVec 32) (row : Nat)
  | finish (c : Nat) (retval : Int)
  | join (c : Nat) (pid : Int)

/-- The running thread of CPU `c` changes its own entry. -/
def onRunner (s : State) (c : Nat) (f : Thread → Option Thread) : Option State :=
  (runner s c).bind fun t => (f (s.threads t)).map (setThread s t)

def step (rows : Nat) (s : State) : Act → Option State
  | .createThread => threadCreate s .kernel
  | .interrupt c next => interruptHandle s c next
  | .sleep c => onRunner s c sleep
  | .wake t => (wake (s.threads t)).map (setThread s t)
  | .threadFinish c => onRunner s c threadFinish
  | .spawnAlloc c executable => (runner s c).bind fun t => spawnAlloc s t executable
  | .spawnThread c => (runner s c).bind fun t => spawnThread s t
  | .enter c => onRunner s c enter
  | .createTable c page => (runner s c).bind fun t => createTable s c t page
  | .map c physaddr vaddr => onRunner s c fun thread => map thread physaddr vaddr
  | .protect c vaddr => onRunner s c fun thread => protect thread vaddr
  | .advance c => onRunner s c advance
  | .refill c vaddr row => (runner s c).bind fun t => refill rows s c t vaddr row
  | .finish c retval => (runner s c).bind fun t => finish s t retval
  | .join c pid => (runner s c).bind fun t => join s t pid

/-- The row translates addresses of one of its two pages. -/
def TlbEntry.Valid (entry : TlbEntry) : Prop := entry.v0 = true ∨ entry.v1 = true

/-- All CPUs idle with nothing in their TLBs, no thread and no process. -/
structure Boot (s : State) : Prop where
  current : ∀ c, (s.cpus c).current = IDLE_THREAD_TID
  tlb : ∀ c k, ((s.cpus c).tlb k).v0 = false ∧ ((s.cpus c).tlb k).v1 = false
  threads : ∀ t, t ≠ IDLE_THREAD_TID → (s.threads t).state = .free
  pagetable : ∀ t, (s.threads t).pagetable = none ∧ (s.threads t).phase = .kernel
  spawning : ∀ t, (s.threads t).spawning = none
  table : ∀ p, (s.table p).state = .free

def system (rows : Nat) : System State Act where
  initial := Boot
  step := step rows

/-- An access to `vaddr` on the CPU is translated by the row. -/
def Translates (rows : Nat) (cpu : Cpu) (vaddr : BitVec 32) (row : TlbEntry) : Prop :=
  ∃ k, k < rows ∧ cpu.tlb k = row ∧ rowMatches cpu vaddr row = true

/-- Whenever an address of the running process is translated, it is by a copy of an
entry of the page table of that process. -/
def TranslatesOwn (rows : Nat) (s : State) : Prop :=
  ∀ c table vaddr row, (s.threads (s.cpus c).current).pagetable = some table →
    Translates rows (s.cpus c) vaddr row → table.Has row

/-! ## Address space identifiers -/

def tidAsid (t : Nat) : BitVec 8 := (BitVec.ofNat 32 t).setWidth 8

def pidAsid (pid : Int) : BitVec 8 := (BitVec.ofInt 32 pid).setWidth 8

/-- The row is tagged with the thread id or the process id of thread `t`. -/
def TaggedFor (s : State) (t : Nat) (row : TlbEntry) : Prop :=
  row.asid = tidAsid t ∨ row.asid = pidAsid (s.threads t).processId

/-- When a process gets its page table, no row of any TLB is tagged with its thread id
or its process id, and no live process has its process id as thread id or its thread id
as process id.  A page is protected only while no TLB holds a row of its process for
the page pair. -/
def OwnAsids (rows : Nat) (s : State) : Act → Prop
  | .createTable c _ =>
      let t := (s.cpus c).current
      (∀ d k, k < rows → ((s.cpus d).tlb k).Valid → ¬ TaggedFor s t ((s.cpus d).tlb k)) ∧
        ∀ u table, u ≠ t → (s.threads u).pagetable = some table →
          tidAsid u ≠ pidAsid (s.threads t).processId ∧
            tidAsid t ≠ pidAsid (s.threads u).processId
  | .protect c vaddr =>
      ∀ d k, k < rows → ((s.cpus d).tlb k).Valid →
        ((s.cpus d).tlb k).asid = tidAsid (s.cpus c).current →
          ((s.cpus d).tlb k).vpn2 ≠ vpn2Of vaddr
  | _ => True

/-- The process ids that a thread holds were allocated. -/
structure Named (thread : Thread) : Prop where
  spawned : ∀ pid, thread.phase = .spawned pid → 0 ≤ pid
  spawning : ∀ pid, thread.spawning = some pid → 0 ≤ pid
  process : thread.phase = .entered ∨ thread.pagetable ≠ none → 0 ≤ thread.processId

structure AsidInv (rows : Nat) (s : State) : Prop where
  named : ∀ t, Named (s.threads t)
  alone : ∀ c d, (s.cpus c).current = (s.cpus d).current →
    (s.cpus c).current ≠ IDLE_THREAD_TID → c = d
  busy : ∀ c, (s.cpus c).current ≠ IDLE_THREAD_TID →
    (s.threads (s.cpus c).current).state = .running ∨ (s.threads (s.cpus c).current).state = .dying
  outside : ∀ t, CONFIG_MAX_THREADS ≤ t → (s.threads t).phase = .kernel
  live : ∀ t table, (s.threads t).pagetable = some table →
    t < CONFIG_MAX_THREADS ∧ t ≠ IDLE_THREAD_TID ∧ table.asid = BitVec.ofNat 32 t ∧ table.Tagged
  current : ∀ c table, (s.threads (s.cpus c).current).pagetable = some table →
    (s.cpus c).asid = tidAsid (s.cpus c).current ∨
      (s.cpus c).asid = pidAsid (s.threads (s.cpus c).current).processId
  apart : ∀ t u table table', t ≠ u → (s.threads t).pagetable = some table →
    (s.threads u).pagetable = some table' → tidAsid t ≠ pidAsid (s.threads u).processId
  rows : ∀ c k t table, k < rows → ((s.cpus c).tlb k).Valid →
    (s.threads t).pagetable = some table → TaggedFor s t ((s.cpus c).tlb k) →
      (s.threads t).phase ≠ .mapping ∧ table.Has ((s.cpus c).tlb k)

theorem valid_of_matches {cpu : Cpu} {vaddr : BitVec 32} {row : TlbEntry}
    (hit : rowMatches cpu vaddr row = true) : row.Valid ∧ row.asid = cpu.asid := by
  simp only [rowMatches, Bool.and_eq_true, decide_eq_true_eq] at hit
  obtain ⟨⟨-, asid⟩, valid⟩ := hit
  refine ⟨?_, asid⟩
  unfold tlbEntryIsValid at valid
  split at valid
  · exact Or.inl valid
  · exact Or.inr valid

theorem AsidInv.translatesOwn {rows : Nat} {s : State} (inv : AsidInv rows s) :
    TranslatesOwn rows s := by
  rintro c table vaddr row running ⟨k, inside, rfl, hit⟩
  obtain ⟨valid, asid⟩ := valid_of_matches hit
  refine (inv.rows c k _ table inside valid running ?_).2
  rcases inv.current c table running with tid | pid
  · exact Or.inl (asid.trans tid)
  · exact Or.inr (asid.trans pid)

theorem tidAsid_inj {t u : Nat} (first : t < CONFIG_MAX_THREADS) (second : u < CONFIG_MAX_THREADS)
    (same : tidAsid t = tidAsid u) : t = u := by
  have values := congrArg BitVec.toNat same
  simp only [tidAsid, CONFIG_MAX_THREADS, BitVec.toNat_setWidth, BitVec.toNat_ofNat] at values first second
  omega

/-- A row in the page table of thread `t` is tagged with its thread id. -/
theorem AsidInv.asid_of_has {rows : Nat} {s : State} (inv : AsidInv rows s) {t : Nat}
    {table : Pagetable} (alive : (s.threads t).pagetable = some table) {entry : TlbEntry}
    (has : table.Has entry) : entry.asid = tidAsid t := by
  obtain ⟨-, -, asid, tagged⟩ := inv.live t table alive
  rw [tagged entry has, asid]
  rfl

section Steps

variable {rows : Nat} {s u : State}

theorem asidInv_boot (boot : Boot s) : AsidInv rows s := by
  have none : ∀ t table, (s.threads t).pagetable ≠ some table := by
    intro t table alive
    rw [(boot.pagetable t).1] at alive
    cases alive
  refine ⟨fun t => ⟨fun pid spawned => ?_, fun pid spawning => ?_, fun started => ?_⟩,
    fun c _ _ other => absurd (boot.current c) other,
    fun c other => absurd (boot.current c) other, fun t _ => (boot.pagetable t).2,
    fun t table alive => absurd alive (none t table),
    fun c table alive => absurd alive (none _ table),
    fun t _ table _ _ alive => absurd alive (none t table),
    fun _ _ t table _ _ alive => absurd alive (none t table)⟩
  · rw [(boot.pagetable t).2] at spawned
    cases spawned
  · rw [boot.spawning t] at spawning
    cases spawning
  · rcases started with entered | alive
    · rw [(boot.pagetable t).2] at entered
      cases entered
    · exact absurd (boot.pagetable t).1 alive

/-- The thread has lost its page table, or has it and its process id as before and does
not begin to map pages. -/
def KeepsSpace (before after : Thread) : Prop :=
  after.pagetable = none ∨ after.pagetable = before.pagetable ∧
    after.processId = before.processId ∧ (after.phase = .mapping → before.phase = .mapping)

theorem KeepsSpace.refl (thread : Thread) : KeepsSpace thread thread := Or.inr ⟨rfl, rfl, id⟩

theorem KeepsSpace.alive {before after : Thread} {table : Pagetable} (keeps : KeepsSpace before after)
    (alive : after.pagetable = some table) : before.pagetable = some table ∧
      after.processId = before.processId ∧ (after.phase = .mapping → before.phase = .mapping) := by
  rcases keeps with none | ⟨same, processId, phase⟩
  · rw [none] at alive
    cases alive
  · exact ⟨same ▸ alive, processId, phase⟩

/-- A step that changes no page table and no row. -/
theorem AsidInv.keeps (inv : AsidInv rows s) (threads : ∀ t, KeepsSpace (s.threads t) (u.threads t))
    (named : ∀ t, Named (u.threads t)) (tlb : ∀ c, (u.cpus c).tlb = (s.cpus c).tlb)
    (alone : ∀ c d, (u.cpus c).current = (u.cpus d).current →
      (u.cpus c).current ≠ IDLE_THREAD_TID → c = d)
    (busy : ∀ c, (u.cpus c).current ≠ IDLE_THREAD_TID →
      (u.threads (u.cpus c).current).state = .running ∨
        (u.threads (u.cpus c).current).state = .dying)
    (outside : ∀ t, CONFIG_MAX_THREADS ≤ t → (u.threads t).phase = .kernel)
    (current : ∀ c table, (u.threads (u.cpus c).current).pagetable = some table →
      (u.cpus c).asid = tidAsid (u.cpus c).current ∨
        (u.cpus c).asid = pidAsid (u.threads (u.cpus c).current).processId) : AsidInv rows u := by
  refine ⟨named, alone, busy, outside, fun t table alive => ?_, current,
    fun t v table table' other first second => ?_, fun c k t table inside valid alive tagged => ?_⟩
  · exact inv.live t table ((threads t).alive alive).1
  · obtain ⟨second, processId, -⟩ := (threads v).alive second
    rw [processId]
    exact inv.apart t v table table' other ((threads t).alive first).1 second
  · obtain ⟨alive, processId, phase⟩ := (threads t).alive alive
    rw [tlb] at valid tagged ⊢
    have tagged : TaggedFor s t ((s.cpus c).tlb k) := by
      simpa only [TaggedFor, processId] using tagged
    obtain ⟨started, has⟩ := inv.rows c k t table inside valid alive tagged
    exact ⟨fun mapping => started (phase mapping), has⟩

theorem setThread_threads (s : State) (t : Nat) (thread : Thread) (v : Nat) :
    (setThread s t thread).threads v = if v = t then thread else s.threads v := by
  simp [setThread, Function.update_apply]

/-- One thread's entry changes, on whatever CPU it runs. -/
theorem AsidInv.keeps_thread (inv : AsidInv rows s) {t : Nat} {thread : Thread}
    (cpus : u.cpus = s.cpus) (threads : u.threads = (setThread s t thread).threads)
    (space : KeepsSpace (s.threads t) thread) (named : Named thread)
    (state : thread.state = (s.threads t).state ∨ thread.state = .dying ∨
      ∀ c, (s.cpus c).current = t → t = IDLE_THREAD_TID)
    (bound : t < CONFIG_MAX_THREADS ∨ thread.phase = (s.threads t).phase) : AsidInv rows u := by
  have each : ∀ v, u.threads v = if v = t then thread else s.threads v := fun v => by
    rw [threads, setThread_threads]
  refine inv.keeps (fun v => ?_) (fun v => ?_) (fun c => by rw [cpus]) (cpus ▸ inv.alone)
    (fun c busy => ?_) (fun v far => ?_) (fun c table alive => ?_)
  · rw [each]
    split
    · rename_i here
      exact here ▸ space
    · exact .refl _
  · rw [each]
    split
    · exact named
    · exact inv.named v
  · rw [cpus] at busy ⊢
    rw [each]
    split
    · rename_i here
      rcases state with same | dying | elsewhere
      · rw [same, ← here]
        exact inv.busy c busy
      · exact Or.inr dying
      · exact absurd (elsewhere c here) (here ▸ busy)
    · exact inv.busy c busy
  · rw [each]
    split
    · rename_i here
      subst here
      rcases bound with near | same
      · exact absurd near (Nat.not_lt.2 far)
      · rw [same]
        exact inv.outside v far
    · exact inv.outside v far
  · rw [cpus] at alive ⊢
    rw [each] at alive ⊢
    split at alive
    · rename_i here
      obtain ⟨alive, processId, -⟩ := space.alive alive
      rw [if_pos here, processId, ← here]
      exact inv.current c table (here ▸ alive)
    · rename_i here
      rw [if_neg here]
      exact inv.current c table alive

/-! ## Steps that leave page tables and rows alone -/

theorem runner_some {c t : Nat} (running : runner s c = some t) :
    (s.cpus c).current = t ∧ t ≠ IDLE_THREAD_TID ∧ (s.threads t).state = .running := by
  unfold runner at running
  dsimp only at running
  split at running
  · rename_i active
    cases running
    exact ⟨rfl, active⟩
  · cases running

theorem AsidInv.bounded (inv : AsidInv rows s) {t : Nat} (started : (s.threads t).phase ≠ .kernel) :
    t < CONFIG_MAX_THREADS :=
  Nat.lt_of_not_le fun far => started (inv.outside t far)

/-- A thread that neither runs nor dies is on no CPU, unless it is the idle thread. -/
theorem AsidInv.idle_of_state (inv : AsidInv rows s) {c t : Nat} (current : (s.cpus c).current = t)
    (notRunning : (s.threads t).state ≠ .running) (notDying : (s.threads t).state ≠ .dying) :
    t = IDLE_THREAD_TID := by
  by_contra other
  have busy := inv.busy c (current ▸ other)
  rw [current] at busy
  exact busy.elim notRunning notDying

theorem freeThread_some {t : Nat} (found : freeThread s = some t) :
    t < CONFIG_MAX_THREADS ∧ t ≠ IDLE_THREAD_TID ∧ (s.threads t).state = .free := by
  have member := List.mem_of_find?_eq_some found
  have free := List.find?_some found
  simp only [Bool.and_eq_true, decide_eq_true_eq] at free
  obtain ⟨i, -, rfl⟩ := List.mem_map.1 member
  exact ⟨Nat.mod_lt _ (by decide), free⟩

theorem threadCreate_asidInv {phase : Phase} (inv : AsidInv rows s)
    (allocated : phase = .kernel ∨ ∃ pid, phase = .spawned pid ∧ 0 ≤ pid)
    (created : threadCreate s phase = some u) : AsidInv rows u := by
  obtain ⟨t, found, rfl⟩ := Option.map_eq_some_iff.1 created
  obtain ⟨near, notIdle, free⟩ := freeThread_some found
  refine inv.keeps_thread rfl rfl (Or.inl rfl) ⟨fun pid spawned => ?_, nofun, fun started => ?_⟩
    (Or.inr (Or.inr fun c current => ?_)) (Or.inl near)
  · rcases allocated with rfl | ⟨pid', rfl, positive⟩
    · cases spawned
    · cases spawned
      exact positive
  · rcases allocated with rfl | ⟨pid', rfl, -⟩ <;> simp at started
  · exact inv.idle_of_state current (by rw [free]; decide) (by rw [free]; decide)

theorem wake_asidInv {t : Nat} (inv : AsidInv rows s)
    (woken : (wake (s.threads t)).map (setThread s t) = some u) : AsidInv rows u := by
  obtain ⟨thread, woke, rfl⟩ := Option.map_eq_some_iff.1 woken
  unfold wake at woke
  split at woke
  · cases woke
    have named := inv.named t
    refine inv.keeps_thread rfl rfl (Or.inr ⟨rfl, rfl, id⟩)
      ⟨named.spawned, named.spawning, named.process⟩ ?_ (Or.inr rfl)
    by_cases asleep : (s.threads t).state = .sleeping
    · refine Or.inr (Or.inr fun c current => ?_)
      exact inv.idle_of_state current (by rw [asleep]; decide) (by rw [asleep]; decide)
    · exact Or.inl (if_neg asleep)
  · cases woke

/-- What a thread does to its own entry without mapping a page. -/
structure Local (before after : Thread) : Prop where
  space : KeepsSpace before after
  named : Named before → Named after
  state : after.state = before.state ∨ after.state = .dying
  phase : before.phase = .kernel → after.phase = .kernel

theorem onRunner_asidInv {c : Nat} {f : Thread → Option Thread} (inv : AsidInv rows s)
    (each : ∀ thread thread', f thread = some thread' → Local thread thread')
    (taken : onRunner s c f = some u) : AsidInv rows u := by
  obtain ⟨t, running, taken⟩ := Option.bind_eq_some_iff.1 taken
  obtain ⟨thread, changed, rfl⟩ := Option.map_eq_some_iff.1 taken
  obtain ⟨space, named, state, phase⟩ := each _ _ changed
  refine inv.keeps_thread rfl rfl space (named (inv.named t)) (state.imp id Or.inl) ?_
  by_cases kernel : (s.threads t).phase = .kernel
  · exact Or.inr ((phase kernel).trans kernel.symm)
  · exact Or.inl (inv.bounded kernel)

theorem sleep_local {thread thread' : Thread} (slept : sleep thread = some thread') :
    Local thread thread' := by
  cases slept
  exact ⟨Or.inr ⟨rfl, rfl, id⟩, fun named => ⟨named.spawned, named.spawning, named.process⟩,
    Or.inl rfl, id⟩

theorem threadFinish_local {thread thread' : Thread} (finished : threadFinish thread = some thread') :
    Local thread thread' := by
  unfold threadFinish at finished
  split at finished
  · cases finished
    exact ⟨Or.inr ⟨rfl, rfl, id⟩, fun named => ⟨named.spawned, named.spawning, named.process⟩,
      Or.inr rfl, id⟩
  · cases finished

theorem enter_local {thread thread' : Thread} (entered : enter thread = some thread') :
    Local thread thread' := by
  unfold enter at entered
  split at entered
  · rename_i pid phase
    split at entered
    · rename_i none
      cases entered
      refine ⟨Or.inl (Option.isNone_iff_eq_none.1 none), fun named => ⟨nofun, named.spawning,
        fun _ => named.spawned pid phase⟩, Or.inl rfl, fun kernel => ?_⟩
      rw [phase] at kernel
      cases kernel
    · cases entered
  · cases entered

theorem advance_local {thread thread' : Thread} (advanced : advance thread = some thread') :
    Local thread thread' := by
  have moves : ∀ before after, thread.phase = before → before ≠ .kernel → after ≠ .mapping →
      (∀ pid, after ≠ .spawned pid) → after ≠ .entered →
      Local thread { thread with phase := after } := by
    intro before after at_ outside notMapping notSpawned notEntered
    refine ⟨Or.inr ⟨rfl, rfl, fun mapping => absurd mapping notMapping⟩,
      fun named => ⟨fun pid spawned => absurd spawned (notSpawned pid), named.spawning,
        fun started => named.process (started.imp (fun entered => absurd entered notEntered) id)⟩,
      Or.inl rfl, fun kernel => absurd (at_.symm.trans kernel) outside⟩
  unfold advance at advanced
  split at advanced
  · rename_i at_
    cases advanced
    exact moves _ _ at_ nofun nofun nofun nofun
  · rename_i at_
    cases advanced
    exact moves _ _ at_ nofun nofun nofun nofun
  · rename_i at_
    cases advanced
    exact moves _ _ at_ nofun nofun nofun nofun
  · cases advanced

/-- `process_spawn` returns an allocated process id, or that the table is full. -/
theorem processSpawn_returned {cur pid : Int} {executable : Name} {table table' : ProcessTable}
    (spawned : processSpawn cur executable table = .returned (pid, table')) :
    pid = PROCESS_PTABLE_FULL ∨ 0 ≤ pid := by
  unfold processSpawn at spawned
  obtain ⟨p, middle, allocated, spawned⟩ := Prog.bind_returned.1 spawned
  have positive : 0 ≤ p := by
    unfold allocProcessId at allocated
    split at allocated <;> cases allocated
    · exact Int.natCast_nonneg _
    · decide
  split at spawned
  · cases spawned
    exact Or.inl rfl
  · split at spawned
    · cases spawned
    · obtain ⟨_, _, -, spawned⟩ := Prog.bind_returned.1 spawned
      cases spawned
      exact Or.inr positive

theorem spawnAlloc_asidInv {t : Nat} {executable : Name} (inv : AsidInv rows s)
    (spawned : spawnAlloc s t executable = some u) : AsidInv rows u := by
  unfold spawnAlloc at spawned
  split at spawned
  · split at spawned
    · rename_i pid table returned
      split at spawned
      · cases spawned
        exact inv.keeps (fun _ => .refl _) inv.named (fun _ => rfl) inv.alone inv.busy inv.outside
          inv.current
      · rename_i allocated
        cases spawned
        have named := inv.named t
        refine inv.keeps_thread rfl rfl (Or.inr ⟨rfl, rfl, id⟩)
          ⟨named.spawned, fun pid' same => ?_, named.process⟩ (Or.inl rfl) (Or.inr rfl)
        cases same
        exact (processSpawn_returned returned).resolve_left allocated
    · cases spawned
  · cases spawned

theorem spawnThread_asidInv {t : Nat} (inv : AsidInv rows s) (spawned : spawnThread s t = some u) :
    AsidInv rows u := by
  obtain ⟨pid, spawning, created⟩ := Option.bind_eq_some_iff.1 spawned
  have named := inv.named t
  refine threadCreate_asidInv ?_ (Or.inr ⟨pid, rfl, named.spawning pid spawning⟩) created
  exact inv.keeps_thread rfl rfl (Or.inr ⟨rfl, rfl, id⟩) ⟨named.spawned, nofun, named.process⟩
    (Or.inl rfl) (Or.inr rfl)

theorem join_asidInv {t : Nat} {pid : Int} (inv : AsidInv rows s) (joined : join s t pid = some u) :
    AsidInv rows u := by
  unfold join at joined
  split at joined
  · split at joined
    · cases joined
      exact inv.keeps (fun _ => .refl _) inv.named (fun _ => rfl) inv.alone inv.busy inv.outside inv.current
    · cases joined
  · cases joined

theorem finish_asidInv {t : Nat} {retval : Int} (inv : AsidInv rows s)
    (finished : finish s t retval = some u) : AsidInv rows u := by
  unfold finish at finished
  split at finished
  · rename_i user
    cases finished
    exact inv.keeps_thread rfl rfl (Or.inl rfl) ⟨nofun, (inv.named t).spawning, by simp⟩ (Or.inl rfl)
      (Or.inl (inv.bounded (by rw [user.1]; decide)))
  · cases finished

/-! ## Context switches -/

theorem leave_threads (s : State) (c t : Nat) :
    ∃ state, (setThread s c (leave (s.threads c))).threads t = { s.threads t with state := state } := by
  rw [setThread_threads]
  split
  · rename_i here
    exact here ▸ ⟨_, rfl⟩
  · exact ⟨_, rfl⟩

theorem interruptHandle_asidInv {c next : Nat} (inv : AsidInv rows s)
    (switched : interruptHandle s c next = some u) : AsidInv rows u := by
  unfold interruptHandle at switched
  dsimp only at switched
  split at switched
  · rename_i selected
    have switched := Option.some.inj switched
    have left := leave_threads s (s.cpus c).current
    -- The thread taken off the CPU and the selected one change only their states.
    have threads : ∀ t, ∃ state, u.threads t = { s.threads t with state := state } := by
      intro t
      subst switched
      simp only [setCpu]
      rw [setThread_threads]
      split
      · rename_i here
        obtain ⟨state, same⟩ := left next
        rw [same, here]
        exact ⟨_, rfl⟩
      · exact left t
    have running : (u.threads next).state = .running := by
      subst switched
      simp [setCpu, setThread_threads]
    have others : ∀ t, t ≠ next → t ≠ (s.cpus c).current → u.threads t = s.threads t := by
      intro t notNext notLeft
      subst switched
      simp [setCpu, setThread_threads, notNext, notLeft]
    have elsewhere : ∀ d, d ≠ c → u.cpus d = s.cpus d := fun d other => by
      subst switched
      simp [setCpu, setThread, other]
    have current : (u.cpus c).current = next := by
      subst switched
      simp only [setCpu, Function.update_self]
      split <;> rfl
    have tlb : ∀ d, (u.cpus d).tlb = (s.cpus d).tlb := by
      intro d
      by_cases here : d = c
      · subst here
        subst switched
        simp only [setCpu, Function.update_self]
        split <;> rfl
      · rw [elsewhere d here]
    have asid : (s.threads next).processId ≠ kernelPid →
        (u.cpus c).asid = pidAsid (s.threads next).processId := by
      intro process
      obtain ⟨state, same⟩ := left next
      subst switched
      simp only [setCpu, Function.update_self, same, if_neg process]
      rfl
    have free : ∀ d, d ≠ c → (s.cpus d).current ≠ IDLE_THREAD_TID →
        (s.cpus d).current ≠ next ∧ (s.cpus d).current ≠ (s.cpus c).current := by
      intro d other busy
      have notLeft : (s.cpus d).current ≠ (s.cpus c).current := fun same => other (inv.alone d c same busy)
      refine ⟨fun same => ?_, notLeft⟩
      rw [same] at notLeft busy
      have ready := selected.resolve_left busy
      simp only [setThread_threads, if_neg notLeft] at ready
      exact busy (inv.idle_of_state same (by rw [ready]; decide) (by rw [ready]; decide))
    refine inv.keeps (fun t => ?_) (fun t => ?_) tlb (fun d e same busy => ?_) (fun d busy => ?_)
      (fun t far => ?_) (fun d table alive => ?_)
    · obtain ⟨state, same⟩ := threads t
      rw [same]
      exact Or.inr ⟨rfl, rfl, id⟩
    · obtain ⟨state, same⟩ := threads t
      rw [same]
      exact ⟨(inv.named t).spawned, (inv.named t).spawning, (inv.named t).process⟩
    · by_cases first : d = c <;> by_cases second : e = c
      · rw [first, second]
      · rw [first, current, elsewhere e second] at same
        rw [first, current, same] at busy
        exact absurd same.symm (free e second busy).1
      · rw [second, current, elsewhere d first] at same
        rw [elsewhere d first] at busy
        exact absurd same (free d first busy).1
      · rw [elsewhere d first, elsewhere e second] at same
        rw [elsewhere d first] at busy
        exact inv.alone d e same busy
    · by_cases here : d = c
      · rw [here, current]
        exact Or.inl running
      · rw [elsewhere d here] at busy ⊢
        obtain ⟨notNext, notLeft⟩ := free d here busy
        rw [others _ notNext notLeft]
        exact inv.busy d busy
    · obtain ⟨state, same⟩ := threads t
      rw [same]
      exact inv.outside t far
    · obtain ⟨state, same⟩ := threads (u.cpus d).current
      rw [same] at alive ⊢
      by_cases here : d = c
      · rw [here, current] at alive ⊢
        have named := (inv.named next).process (Or.inr (by rw [alive]; simp))
        exact Or.inr (asid (by rintro kernel; rw [kernel] at named; exact absurd named (by decide)))
      · rw [elsewhere d here] at alive ⊢
        exact inv.current d table alive
  · cases switched

/-! ## Page tables and rows -/

/-- A live process changes its page table. -/
theorem AsidInv.retables (inv : AsidInv rows s) {t : Nat} {table table' : Pagetable}
    (alive : (s.threads t).pagetable = some table) (asid : table'.asid = table.asid)
    (tagged : table'.Tagged)
    (has : ∀ c k, k < rows → ((s.cpus c).tlb k).Valid → TaggedFor s t ((s.cpus c).tlb k) →
      table'.Has ((s.cpus c).tlb k))
    (after : setThread s t { s.threads t with pagetable := some table' } = u) : AsidInv rows u := by
  have cpus : u.cpus = s.cpus := by
    subst after
    rfl
  have here : u.threads t = { s.threads t with pagetable := some table' } := by
    subst after
    rw [setThread_threads, if_pos rfl]
  have others : ∀ v, v ≠ t → u.threads v = s.threads v := by
    intro v other
    subst after
    rw [setThread_threads, if_neg other]
  have processId : ∀ v, (u.threads v).processId = (s.threads v).processId := by
    intro v
    by_cases this : v = t
    · rw [this, here]
    · rw [others v this]
  have live : ∀ v table'', (u.threads v).pagetable = some table'' →
      ∃ before, (s.threads v).pagetable = some before := by
    intro v table'' now
    by_cases this : v = t
    · exact ⟨table, this ▸ alive⟩
    · rw [others v this] at now
      exact ⟨table'', now⟩
  refine ⟨fun v => ?_, cpus ▸ inv.alone, fun c busy => ?_, fun v far => ?_, fun v table'' now => ?_,
    fun c table'' now => ?_, fun v w table₁ table₂ other first second => ?_,
    fun c k v table'' inside valid now tag => ?_⟩
  · by_cases this : v = t
    · rw [this, here]
      exact ⟨(inv.named t).spawned, (inv.named t).spawning, fun _ =>
        (inv.named t).process (Or.inr (by rw [alive]; simp))⟩
    · rw [others v this]
      exact inv.named v
  · rw [cpus] at busy ⊢
    have busy := inv.busy c busy
    by_cases this : (s.cpus c).current = t
    · rw [this] at busy ⊢
      rwa [here]
    · rwa [others _ this]
  · by_cases this : v = t
    · rw [this, here]
      exact inv.outside t (this ▸ far)
    · rw [others v this]
      exact inv.outside v far
  · by_cases this : v = t
    · rw [this, here] at now
      cases now
      obtain ⟨near, notIdle, was, -⟩ := inv.live t table alive
      exact ⟨this ▸ near, this ▸ notIdle, this ▸ asid.trans was, tagged⟩
    · rw [others v this] at now
      exact inv.live v table'' now
  · rw [cpus] at now ⊢
    obtain ⟨before, was⟩ := live _ table'' now
    rw [processId]
    exact inv.current c before was
  · obtain ⟨before₁, first⟩ := live v table₁ first
    obtain ⟨before₂, second⟩ := live w table₂ second
    rw [processId]
    exact inv.apart v w before₁ before₂ other first second
  · rw [cpus] at valid tag ⊢
    have tag : TaggedFor s v ((s.cpus c).tlb k) := by
      simpa only [TaggedFor, processId] using tag
    by_cases this : v = t
    · subst this
      rw [here] at now ⊢
      cases now
      exact ⟨(inv.rows c k v table inside valid alive tag).1, has c k inside valid tag⟩
    · rw [others v this] at now ⊢
      exact inv.rows c k v table'' inside valid now tag

theorem map_asidInv {c : Nat} {physaddr vaddr : BitVec 32} (inv : AsidInv rows s)
    (taken : onRunner s c (fun thread => map thread physaddr vaddr) = some u) : AsidInv rows u := by
  obtain ⟨t, -, taken⟩ := Option.bind_eq_some_iff.1 taken
  obtain ⟨thread, changed, rfl⟩ := Option.map_eq_some_iff.1 taken
  have changed : map (s.threads t) physaddr vaddr = some thread := changed
  unfold map at changed
  split at changed
  · rename_i mapping
    obtain ⟨table, alive, changed⟩ := Option.bind_eq_some_iff.1 changed
    obtain ⟨table', mapped, rfl⟩ := Option.map_eq_some_iff.1 changed
    refine inv.retables alive (vmMap_asid mapped)
      (vmMap_tagged (inv.live t table alive).2.2.2 mapped) (fun d k inside valid tag => ?_) rfl
    exact absurd mapping (inv.rows d k t table inside valid alive tag).1
  · cases changed

theorem protect_asidInv {c : Nat} {vaddr : BitVec 32} (inv : AsidInv rows s)
    (unloaded : OwnAsids rows s (.protect c vaddr))
    (taken : onRunner s c (fun thread => protect thread vaddr) = some u) : AsidInv rows u := by
  obtain ⟨t, running, taken⟩ := Option.bind_eq_some_iff.1 taken
  obtain ⟨current, -, -⟩ := runner_some running
  obtain ⟨thread, changed, rfl⟩ := Option.map_eq_some_iff.1 taken
  have changed : protect (s.threads t) vaddr = some thread := changed
  unfold protect at changed
  split at changed
  · obtain ⟨table, alive, changed⟩ := Option.bind_eq_some_iff.1 changed
    obtain ⟨table', set, rfl⟩ := Option.map_eq_some_iff.1 changed
    refine inv.retables alive (vmSetDirty_asid set)
      (vmSetDirty_tagged (inv.live t table alive).2.2.2 set) (fun d k inside valid tag => ?_) rfl
    have has := (inv.rows d k t table inside valid alive tag).2
    refine vmSetDirty_has set has (unloaded d k inside valid ?_)
    rw [current]
    exact inv.asid_of_has alive has
  · cases changed

theorem createTable_asidInv {c t : Nat} {page : Nat → TlbEntry} (inv : AsidInv rows s)
    (running : runner s c = some t) (own : OwnAsids rows s (.createTable c page))
    (created : createTable s c t page = some u) : AsidInv rows u := by
  obtain ⟨current, notIdle, state⟩ := runner_some running
  unfold createTable at created
  split at created
  · rename_i entered
    have created := Option.some.inj created
    obtain ⟨untagged, apart⟩ := own
    rw [current] at untagged apart
    have near : t < CONFIG_MAX_THREADS := inv.bounded (by rw [entered]; decide)
    have threads : ∀ v, u.threads v = if v = t then { s.threads t with
        pagetable := some (vmCreatePagetable (BitVec.ofNat 32 t) page), phase := .mapping }
        else s.threads v := by
      intro v
      subst created
      exact setThread_threads s t _ v
    have here := (threads t).trans (if_pos rfl)
    have others : ∀ v, v ≠ t → u.threads v = s.threads v := fun v other =>
      (threads v).trans (if_neg other)
    have processId : ∀ v, (u.threads v).processId = (s.threads v).processId := by
      intro v
      rw [threads]
      split
      · rename_i this
        rw [this]
      · rfl
    have cpus : ∀ d, (u.cpus d).current = (s.cpus d).current ∧ (u.cpus d).tlb = (s.cpus d).tlb := by
      intro d
      subst created
      by_cases this : d = c
      · subst this
        simp [setCpu, tlbSetAsid]
      · simp [setCpu, setThread, this]
    have asid : (u.cpus c).asid = tidAsid t := by
      subst created
      simp [setCpu, tlbSetAsid, tidAsid]
    have elsewhere : ∀ d, d ≠ c → u.cpus d = s.cpus d := fun d other => by
      subst created
      simp [setCpu, setThread, other]
    refine ⟨fun v => ?_, fun d e same busy => ?_, fun d busy => ?_, fun v far => ?_,
      fun v table after => ?_, fun d table after => ?_, fun v w table₁ table₂ other first second => ?_,
      fun d k v table inside valid after tag => ?_⟩
    · by_cases this : v = t
      · rw [this, here]
        exact ⟨nofun, (inv.named t).spawning, fun _ => (inv.named t).process (Or.inl entered)⟩
      · rw [others v this]
        exact inv.named v
    · rw [(cpus d).1, (cpus e).1] at same
      rw [(cpus d).1] at busy
      exact inv.alone d e same busy
    · rw [(cpus d).1] at busy ⊢
      have busy := inv.busy d busy
      by_cases this : (s.cpus d).current = t
      · rw [this, here]
        exact Or.inl state
      · rwa [others _ this]
    · have other : v ≠ t := fun this => absurd near (Nat.not_lt.2 (this ▸ far))
      rw [others v other]
      exact inv.outside v far
    · by_cases this : v = t
      · rw [this, here] at after
        cases after
        exact ⟨this ▸ near, this ▸ notIdle, this ▸ rfl, vmCreatePagetable_tagged _ page⟩
      · rw [others v this] at after
        exact inv.live v table after
    · rw [(cpus d).1] at after ⊢
      by_cases this : d = c
      · rw [this, current]
        exact Or.inl asid
      · have other : (s.cpus d).current ≠ t := fun same =>
          this (inv.alone d c (same.trans current.symm) (same ▸ notIdle))
        rw [elsewhere d this, processId]
        rw [others _ other] at after
        exact inv.current d table after
    · rw [processId]
      by_cases this : v = t
      · rw [others w (fun same => other (this.trans same.symm))] at second
        rw [this]
        exact (apart w table₂ (fun same => other (this.trans same.symm)) second).2
      · rw [others v this] at first
        by_cases that : w = t
        · rw [that]
          exact (apart v table₁ this first).1
        · rw [others w that] at second
          exact inv.apart v w table₁ table₂ other first second
    · rw [(cpus d).2] at valid tag ⊢
      have tag : TaggedFor s v ((s.cpus d).tlb k) := by
        simpa only [TaggedFor, processId] using tag
      by_cases this : v = t
      · exact absurd (this ▸ tag) (untagged d k inside valid)
      · rw [others v this] at after ⊢
        exact inv.rows d k v table inside valid after tag
  · cases created

theorem refill_asidInv {c t k : Nat} {vaddr : BitVec 32} (inv : AsidInv rows s)
    (running : runner s c = some t) (filled : refill rows s c t vaddr k = some u) :
    AsidInv rows u := by
  obtain ⟨current, -, -⟩ := runner_some running
  unfold refill at filled
  split at filled
  · rename_i allowed
    obtain ⟨table, alive, filled⟩ := Option.bind_eq_some_iff.1 filled
    obtain ⟨entry, found, rfl⟩ := Option.map_eq_some_iff.1 filled
    have has := tlbStoreException_has found
    have asid := inv.asid_of_has alive has
    have cpus : ∀ d, ((setCpu s c (tlbWriteRandom (s.cpus c) k entry)).cpus d).current =
        (s.cpus d).current := by
      intro d
      by_cases this : d = c
      · subst this
        simp [setCpu, tlbWriteRandom]
      · simp [setCpu, this]
    refine ⟨inv.named, fun d e same busy => ?_, fun d busy => ?_, inv.outside, inv.live,
      fun d table' after => ?_, inv.apart, fun d k' v table' inside valid after tag => ?_⟩
    · rw [cpus, cpus] at same
      rw [cpus] at busy
      exact inv.alone d e same busy
    · rw [cpus] at busy ⊢
      exact inv.busy d busy
    · rw [cpus] at after ⊢
      by_cases this : d = c
      · rw [this, current]
        refine Or.inl ?_
        simpa [setCpu, tlbWriteRandom] using asid
      · simpa [setCpu, this] using inv.current d table' after
    · by_cases new : d = c ∧ k' = k
      · obtain ⟨rfl, rfl⟩ := new
        have row : ((setCpu s d (tlbWriteRandom (s.cpus d) k' entry)).cpus d).tlb k' = entry := by
          simp [setCpu, tlbWriteRandom]
        rw [row] at tag ⊢
        have own : v = t := by
          by_contra other
          rcases tag with tid | pid
          · exact other (tidAsid_inj (inv.live v table' after).1 (inv.live t table alive).1
              (tid.symm.trans asid))
          · exact inv.apart t v table table' (Ne.symm other) alive after (asid.symm.trans pid)
        subst own
        have alive' : (s.threads v).pagetable = some table' := after
        cases Option.some.inj (alive.symm.trans alive')
        refine ⟨fun mapping => ?_, has⟩
        rw [show (s.threads v).phase = .mapping from mapping] at allowed
        simp at allowed
      · have row : ((setCpu s c (tlbWriteRandom (s.cpus c) k entry)).cpus d).tlb k' =
            (s.cpus d).tlb k' := by
          by_cases this : d = c
          · subst this
            have other : k' ≠ k := fun same => new ⟨rfl, same⟩
            simp [setCpu, tlbWriteRandom, other]
          · simp [setCpu, this]
        rw [row] at valid tag ⊢
        exact inv.rows d k' v table' inside valid after tag
  · cases filled

/-! ## Runs -/

theorem asidInv_step {a : Act} (inv : AsidInv rows s) (own : OwnAsids rows s a)
    (taken : step rows s a = some u) : AsidInv rows u := by
  cases a with
  | createThread => exact threadCreate_asidInv inv (Or.inl rfl) taken
  | interrupt c next => exact interruptHandle_asidInv inv taken
  | sleep c => exact onRunner_asidInv inv (fun _ _ => sleep_local) taken
  | wake t => exact wake_asidInv inv taken
  | threadFinish c => exact onRunner_asidInv inv (fun _ _ => threadFinish_local) taken
  | spawnAlloc c executable =>
      obtain ⟨t, -, taken⟩ := Option.bind_eq_some_iff.1 taken
      exact spawnAlloc_asidInv inv taken
  | spawnThread c =>
      obtain ⟨t, -, taken⟩ := Option.bind_eq_some_iff.1 taken
      exact spawnThread_asidInv inv taken
  | enter c => exact onRunner_asidInv inv (fun _ _ => enter_local) taken
  | createTable c page =>
      obtain ⟨t, running, taken⟩ := Option.bind_eq_some_iff.1 taken
      exact createTable_asidInv inv running own taken
  | map c physaddr vaddr => exact map_asidInv inv taken
  | protect c vaddr => exact protect_asidInv inv own taken
  | advance c => exact onRunner_asidInv inv (fun _ _ => advance_local) taken
  | refill c vaddr row =>
      obtain ⟨t, running, taken⟩ := Option.bind_eq_some_iff.1 taken
      exact refill_asidInv inv running taken
  | finish c retval =>
      obtain ⟨t, -, taken⟩ := Option.bind_eq_some_iff.1 taken
      exact finish_asidInv inv taken
  | join c pid =>
      obtain ⟨t, -, taken⟩ := Option.bind_eq_some_iff.1 taken
      exact join_asidInv inv taken

/-- **Processes translate through their own page tables.**  In every run in which no
process starts while its thread id or process id is the tag of a row or of another live
process, and no page is protected while a row for it is loaded, every address of a
running process is translated by a copy of an entry of its own page table. -/
theorem translates_own (reached : (system rows).ReachableWhen (OwnAsids rows) s) :
    TranslatesOwn rows s :=
  (System.ReachableWhen.invariant (I := AsidInv rows) (fun _ boot => asidInv_boot boot)
    (fun _ _ _ inv own taken => asidInv_step inv own taken) reached).translatesOwn

end Steps

/-! ## Three processes -/

def emptyRow : TlbEntry := ⟨0, 0, 0, false, false, false, 0, false, false, false⟩

def booted : State where
  cpus _ := { current := IDLE_THREAD_TID, asid := 0, tlb := fun _ => emptyRow }
  threads _ :=
    { state := .free, sleepsOn := false, pagetable := none, processId := kernelPid, phase := .kernel
      spawning := none }
  nextTid := 0
  table := zeroTable

theorem booted_boot : Boot booted :=
  ⟨fun _ => rfl, fun _ _ => ⟨rfl, rfl⟩, fun _ _ => rfl, fun _ => ⟨rfl, rfl⟩, fun _ => rfl,
    fun _ => rfl⟩

/-- The thread on CPU 0 starts a process with one page at `0x2000`. -/
def startsProcess (physaddr : BitVec 32) : List Act :=
  [.enter 0, .createTable 0 fun _ => emptyRow, .map 0 physaddr 0x2000, .advance 0, .advance 0,
    .advance 0]

/-- The startup thread spawns the first process, which touches its page. -/
def firstProcess : List Act :=
  [.createThread, .interrupt 0 1, .spawnAlloc 0 [], .spawnThread 0, .interrupt 0 2] ++
    startsProcess 0x5000 ++ [.refill 0 0x2000 0]

/-- The first process has thread id 2 and process id 0.  It spawns two more; the second
of them has thread id 4 and process id 2. -/
def thirdProcess : List Act :=
  firstProcess ++ [.spawnAlloc 0 [], .spawnThread 0, .spawnAlloc 0 [], .spawnThread 0, .interrupt 0 4] ++
    startsProcess 0x9000 ++ [.interrupt 0 0, .interrupt 0 4]

/-- The address `0x2000` of the running process is translated by row 0, which is no copy
of the only entry of its page table. -/
def translatesForeign (s : State) : Bool :=
  rowMatches (s.cpus 0) 0x2000 ((s.cpus 0).tlb 0) &&
    (s.threads (s.cpus 0).current).pagetable.any fun table =>
      table.validCount = 1 && table.entries 0 ≠ (s.cpus 0).tlb 0

/-- The third process reads the page of the first. -/
theorem translates_foreign : ¬ ∀ s, (system 16).Reachable s → TranslatesOwn 16 s := by
  intro claim
  have run : ((system 16).exec booted thirdProcess).any translatesForeign = true := by
    decide +kernel
  obtain ⟨s, ran, wrong⟩ := (Option.any_eq_true _ _).1 run
  have own := claim s ((System.Reachable.start booted_boot).exec ran)
  simp only [translatesForeign, Bool.and_eq_true, Option.any_eq_true] at wrong
  obtain ⟨hit, table, alive, foreign⟩ := wrong
  simp only [decide_eq_true_eq] at foreign
  obtain ⟨i, inside, same⟩ := own 0 table 0x2000 _ alive ⟨0, by decide, rfl, hit⟩
  rw [foreign.1, Nat.lt_one_iff] at inside
  subst inside
  exact foreign.2 same

/-- The first process spawns a second one, which runs on CPU 1 and touches its page. -/
def twoProcesses : List Act :=
  firstProcess ++ [.spawnAlloc 0 [], .spawnThread 0, .interrupt 1 3, .enter 1,
    .createTable 1 fun _ => emptyRow, .map 1 0x9000 0x2000, .advance 1, .advance 1, .advance 1,
    .refill 1 0x2000 0]

theorem twoProcesses_guarded : (system 16).Guarded (OwnAsids 16) booted twoProcesses := by
  refine ⟨trivial, trivial, trivial, trivial, trivial, trivial, ⟨?_, ?_⟩, trivial, trivial, trivial,
    trivial, trivial, trivial, trivial, trivial, trivial, ⟨?_, ?_⟩, trivial, trivial, trivial,
    trivial, trivial, trivial⟩
  · intro d k _ valid
    cases d <;> rcases valid with even | odd
    · cases even
    · cases odd
    · cases even
    · cases odd
  · rintro (_ | _ | _ | u) table other alive <;> cases alive
  · intro d k _ valid
    rcases d with _ | _ | d
    · rcases k with _ | k
      -- the row of the first process
      · rintro (tid | pid)
        · exact absurd tid (by decide)
        · exact absurd pid (by decide)
      · rcases valid with even | odd
        · cases even
        · cases odd
    · rcases valid with even | odd
      · cases even
      · cases odd
    · rcases valid with even | odd
      · cases even
      · cases odd
  · rintro (_ | _ | _ | _ | u) table other alive
    · cases alive
    · cases alive
    · exact ⟨by decide, by decide⟩
    · cases alive
    · cases alive

/-- Both translate `0x2000`, each to its own page. -/
theorem translates_own_two :
    ∃ s, (system 16).exec booted twoProcesses = some s ∧ TranslatesOwn 16 s ∧
      (s.cpus 0).current = 2 ∧ tlbHit 16 (s.cpus 0) 0x2000 = true ∧ ((s.cpus 0).tlb 0).pfn0 = 5 ∧
      (s.cpus 1).current = 3 ∧ tlbHit 16 (s.cpus 1) 0x2000 = true ∧ ((s.cpus 1).tlb 0).pfn0 = 9 := by
  have run : ((system 16).exec booted twoProcesses).any (fun s =>
      (s.cpus 0).current = 2 ∧ tlbHit 16 (s.cpus 0) 0x2000 = true ∧ ((s.cpus 0).tlb 0).pfn0 = 5 ∧
      (s.cpus 1).current = 3 ∧ tlbHit 16 (s.cpus 1) 0x2000 = true ∧ ((s.cpus 1).tlb 0).pfn0 = 9) =
        true := by decide +kernel
  obtain ⟨s, ran, hits⟩ := (Option.any_eq_true _ _).1 run
  exact ⟨s, ran,
    translates_own ((System.ReachableWhen.start booted_boot).exec twoProcesses_guarded ran),
    of_decide_eq_true hits⟩

end Buenos.Vm
