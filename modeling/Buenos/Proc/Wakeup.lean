/-
# Proc.Wakeup -- process_join never misses process_finish

`process_join` and `process_finish` of proc/process.c on the thread table of
kernel/thread.c, with everything else that the threads do.  They are cut where another
CPU can come in between: the process table's spinlock is taken, the sleep queue is
called, the lock is released, and a joiner is switched out and takes the lock again.
Interrupts are off while the lock is held, so its CPU does nothing else.

`process_spawn` and `process_start` are here because they decide which thread runs which
process, and so that `process_finish` is called once for an entry.  The ghost fields
record what the call of `process_finish` that made an entry a zombie stored, and what the
joins returned.
-/
import Buenos.Kernel.SleepQueue
import Buenos.Proc.Process

namespace Buenos.Proc.Wakeup

open Buenos.Lib Buenos.Theory Buenos.Kernel

set_option autoImplicit false

/-- `sizeof(process_table_t)`. -/
def PROCESS_TABLE_T_SIZE : Nat := 312

/-- `&process_table[pid]`, for the table at `base`. -/
def entryAddress (base : Nat) (pid : Int) : Word :=
  BitVec.ofNat 32 (base + PROCESS_TABLE_T_SIZE * pid.toNat)

def isEntry (base : Nat) (resource : Word) : Bool :=
  (List.range PROCESS_MAX_PROCESSES).any fun pid => resource = entryAddress base pid

/-- How far the CPU that holds the process table's spinlock has got. -/
inductive Section where
  | testing (pid : Int)
  | queued (pid : Int)
  | zombied (pid : Int)
  | woken (pid : Int)
  deriving DecidableEq, Repr

/-- Where a thread is in the calls of this module. -/
inductive Place where
  | out
  | spawning (pid : Int)
  | asked (pid : Int)
  | inside (pid : Int)
  | leaving (pid : Int)
  | left (pid : Int)
  | finished
  deriving DecidableEq, Repr

def Place.switched : Place → Place
  | .leaving pid => .left pid
  | place => place

/-- One return of `process_join`: what it returned, and what `process_finish` had stored. -/
structure Return where
  value : Int
  stored : Int
  deriving DecidableEq, Repr

structure State where
  machine : Machine
  table : ProcessTable
  processId : Int → Int
  holder : Option (Nat × Section)
  place : Int → Place
  reserved : Int → Bool
  stored : Int → Int
  returned : List Return

inductive Act where
  | other (a : Action)
  | spawnAlloc (cpu : Nat)
  | spawnFill (cpu : Nat) (executable : Name)
  | start (cpu : Nat) (pid : Int)
  | joinAsk (cpu : Nat) (pid : Int)
  | joinLock (cpu : Nat)
  | joinQueue (cpu : Nat)
  | joinLeave (cpu : Nat)
  | joinCollect (cpu : Nat)
  | finishLock (cpu : Nat) (retval : Int)
  | finishWake (cpu : Nat)
  | finishDone (cpu : Nat)

def boot : State where
  machine := .boot
  table := processInit zeroTable
  processId := fun _ => kernelPid
  holder := none
  place := fun _ => .out
  reserved := fun _ => false
  stored := fun _ => 0
  returned := []

namespace State

/-- The current thread of a CPU. -/
def current (s : State) (cpu : Nat) : Int := s.machine.threads.schedulerCurrentThread cpu

def setPlace (s : State) (cpu : Nat) (place : Place) : State :=
  { s with place := Function.update s.place (s.current cpu) place }

/-- The thread of a CPU can make a call. -/
def calls (cpus : Nat) (s : State) (cpu : Nat) : Bool :=
  cpu < cpus && s.machine.threads.acts cpu && s.place (s.current cpu) = .out &&
    s.holder.map Prod.fst ≠ some cpu

/-- What the rest of the kernel can do: nothing about an entry of the process table,
nothing on a CPU that holds the lock, and nothing but switch in a thread that is in one of
the calls; after `process_finish` comes `thread_finish`. -/
def leavesAlone (base : Nat) (s : State) (a : Action) : Bool :=
  !(a.resource.any (isEntry base)) && match a.cpu with
    | none => true
    | some cpu => s.holder.map Prod.fst ≠ some cpu &&
        (a = .schedule cpu || s.place (s.current cpu) = .out ||
          (a = .finish cpu && s.place (s.current cpu) = .finished))

/-- A switch takes a joiner off its CPU; a new thread is in no call. -/
def placeAfter (s : State) : Action → Int → Place
  | .schedule cpu => Function.update s.place (s.current cpu) (s.place (s.current cpu)).switched
  | .init t => Function.update s.place t .out
  | _ => s.place

/-- `thread_create` says that the new thread runs no process. -/
def processIdAfter (s : State) : Action → Int → Int
  | .init t => Function.update s.processId t kernelPid
  | _ => s.processId

end State

def step (base cpus : Nat) (s : State) : Act → Option State
  | .other a =>
      if s.leavesAlone base a then
        ((threadSystem cpus).step s.machine a).map fun m =>
          { s with machine := m, place := s.placeAfter a, processId := s.processIdAfter a }
      else none
  | .spawnAlloc cpu =>
      if s.calls cpus cpu ∧ s.holder = none then
        match allocProcessId s.table with
        | .returned (pid, table) =>
            if pid < PROCESS_MAX_PROCESSES then
              some (({ s with table := table } : State).setPlace cpu (.spawning pid))
            else if pid = PROCESS_MAX_PROCESSES then some { s with table := table }
            else none
        | .stopped _ => none
      else none
  | .spawnFill cpu executable =>
      match s.place (s.current cpu) with
      | .spawning pid =>
          some (({ s with
            table := Proc.spawnFill s.table (s.processId (s.current cpu)) pid executable
            reserved := Function.update s.reserved pid true } : State).setPlace cpu .out)
      | _ => none
  | .start cpu pid =>
      if s.calls cpus cpu ∧ s.processId (s.current cpu) = kernelPid ∧ s.reserved pid = true then
        some { s with
          processId := Function.update s.processId (s.current cpu) pid
          reserved := Function.update s.reserved pid false }
      else none
  | .joinAsk cpu pid =>
      if s.calls cpus cpu then
        -- a rejected call returns PROCESS_ILLEGAL_JOIN at once
        if joinAllowed s.table (s.processId (s.current cpu)) pid then
          some (s.setPlace cpu (.asked pid))
        else some s
      else none
  | .joinLock cpu =>
      if cpu < cpus ∧ s.holder = none then
        match s.place (s.current cpu) with
        | .asked pid | .left pid =>
            some (({ s with holder := some (cpu, .testing pid) } : State).setPlace cpu (.inside pid))
        | _ => none
      else none
  | .joinQueue cpu =>
      match s.holder with
      | some (c, .testing pid) =>
          if c = cpu ∧ (s.table pid).state ≠ .zombie then
            ((threadSystem cpus).step s.machine (.sleepqAdd cpu (entryAddress base pid))).map
              fun m => { s with machine := m, holder := some (cpu, .queued pid) }
          else none
      | _ => none
  | .joinLeave cpu =>
      match s.holder with
      | some (c, .queued pid) =>
          if c = cpu then some (({ s with holder := none } : State).setPlace cpu (.leaving pid))
          else none
      | _ => none
  | .joinCollect cpu =>
      match s.holder with
      | some (c, .testing pid) =>
          if c = cpu ∧ (s.table pid).state = .zombie then
            some (({ s with
              table := processReset s.table pid
              holder := none
              returned := s.returned ++ [⟨(s.table pid).retval, s.stored pid⟩] } :
                State).setPlace cpu .out)
          else none
      | _ => none
  | .finishLock cpu retval =>
      let pid := s.processId (s.current cpu)
      if s.calls cpus cpu ∧ s.holder = none ∧ 0 ≤ pid then
        some (({ s with
          table := processFinish s.table pid retval
          holder := some (cpu, .zombied pid)
          stored := if (s.table pid).state = .zombie then s.stored
            else Function.update s.stored pid retval } : State).setPlace cpu .finished)
      else none
  | .finishWake cpu =>
      match s.holder with
      | some (c, .zombied pid) =>
          if c = cpu then
            ((threadSystem cpus).step s.machine (.wakeAll (entryAddress base pid))).map
              fun m => { s with machine := m, holder := some (cpu, .woken pid) }
          else none
      | _ => none
  | .finishDone cpu =>
      match s.holder with
      | some (c, .woken _) => if c = cpu then some { s with holder := none } else none
      | _ => none

/-- All interleavings of joins and exits, and of all else, on `cpus` CPUs. -/
def system (base cpus : Nat) : System State Act where
  initial s := s = boot
  step := step base cpus

/-! ## Where the joiners are -/

/-- The entry that a thread in `process_join` waits for. -/
def Place.joining : Place → Option Int
  | .asked pid | .inside pid | .leaving pid | .left pid => some pid
  | _ => none

/-- The joiner that holds the lock, and its entry. -/
def Section.joins : Section → Option Int
  | .testing pid | .queued pid => some pid
  | _ => none

/-- What the threads in `process_join` are like. -/
structure Joiners (cpus : Nat) (s : State) : Prop where
  machine : (threadSystem cpus).Reachable s.machine
  joiner : ∀ cpu sec pid, s.holder = some (cpu, sec) → sec.joins = some pid →
    cpu < cpus ∧ s.place (s.current cpu) = .inside pid
  tests : ∀ cpu pid, s.holder = some (cpu, .testing pid) → s.machine.threads.acts cpu = true
  alive : ∀ t pid, (s.place t).joining = some pid →
    IsTid t ∧ s.machine.threads.state t ≠ .dying ∧ 0 ≤ pid ∧ pid < PROCESS_MAX_PROCESSES
  asked : ∀ t pid, s.place t = .asked pid → s.machine.threads.sleepsOn t = 0
  left : ∀ t pid, s.place t = .left pid → s.machine.threads.sleepsOn t ≠ 0 →
    s.machine.threads.state t = .sleeping

namespace Joiners

variable {base cpus : Nat} {s : State}

theorem start : Joiners cpus boot where
  machine := .start rfl
  joiner := by simp [boot]
  tests := by simp [boot]
  alive := by simp [boot, Place.joining]
  asked := by simp [boot]
  left := by simp [boot]

/-- The joiner that holds the lock is none of the threads outside the joins. -/
theorem apart (joiners : Joiners cpus s) {cpu : Nat} {sec : Section} {pid : Int}
    (held : s.holder = some (cpu, sec)) (joins : sec.joins = some pid) {x : Int}
    (outside : (s.place x).joining = none) : s.current cpu ≠ x := by
  rintro rfl
  rw [(joiners.joiner cpu sec pid held joins).2] at outside
  cases outside

/-- A thread leaves a call, or goes from one to another, and is in no join afterwards. -/
theorem goes (joiners : Joiners cpus s) {t : State} (machine : t.machine = s.machine) (x : Int)
    {p : Place} (place : t.place = Function.update s.place x p) (after : p.joining = none)
    (holder : ∀ cpu sec pid, t.holder = some (cpu, sec) → sec.joins = some pid →
      s.holder = some (cpu, sec) ∧ s.current cpu ≠ x) : Joiners cpus t := by
  have old : ∀ y pid, (t.place y).joining = some pid → t.place y = s.place y := by
    intro y pid joins
    rw [place] at joins ⊢
    by_cases same : y = x
    · rw [same, Function.update_self, after] at joins
      cases joins
    · rw [Function.update_of_ne same]
  exact
    { machine := by rw [machine]; exact joiners.machine
      joiner := by
        intro cpu sec pid held joins
        obtain ⟨held, ne⟩ := holder cpu sec pid held joins
        obtain ⟨on, inside⟩ := joiners.joiner cpu sec pid held joins
        refine ⟨on, ?_⟩
        rw [State.current, machine, place]
        exact (Function.update_of_ne ne _ _).trans inside
      tests := by
        intro cpu pid held
        rw [machine]
        exact joiners.tests cpu pid (holder cpu _ pid held rfl).1
      alive := by
        intro y pid joins
        rw [old y pid joins] at joins
        rw [machine]
        exact joiners.alive y pid joins
      asked := by
        intro y pid asks
        rw [machine]
        have same := old y pid (by rw [asks]; rfl)
        exact joiners.asked y pid (same ▸ asks)
      left := by
        intro y pid left
        rw [machine]
        have same := old y pid (by rw [left]; rfl)
        exact joiners.left y pid (same ▸ left) }

/-- A step of the threads, taken by none of the joiners. -/
theorem moves (joiners : Joiners cpus s) {t : State} {a : Action}
    (taken : (threadSystem cpus).step s.machine a = some t.machine)
    (joiner : ∀ cpu sec pid, t.holder = some (cpu, sec) → sec.joins = some pid →
      cpu < cpus ∧ t.place (t.current cpu) = .inside pid)
    (tests : ∀ cpu pid, t.holder = some (cpu, .testing pid) → t.machine.threads.acts cpu = true)
    (place : ∀ x, t.place x = s.place x ∨ (t.place x).joining = none ∨
      ∃ cpu pid, a = .schedule cpu ∧ x = s.current cpu ∧ s.place x = .leaving pid ∧
        t.place x = .left pid)
    (finishes : ∀ cpu, a = .finish cpu → (s.place (s.current cpu)).joining = none)
    (queues : ∀ cpu resource pid, a = .sleepqAdd cpu resource →
      s.place (s.current cpu) ≠ .asked pid ∧ s.place (s.current cpu) ≠ .left pid) :
    Joiners cpus t := by
  have reached := joiners.machine
  obtain ⟨-, -, ready, chain, ready', -, -, effect⟩ := step_effect reached taken
  have waits : ∀ x pid, s.place x = .asked pid ∨ s.place x = .left pid →
      t.machine.threads.sleepsOn x ≠ 0 →
        t.machine.threads.sleepsOn x = s.machine.threads.sleepsOn x := by
    intro x pid here queued
    have waits := waits_of_queued reached taken queued
    cases a with
    | sleepqAdd cpu resource =>
        have ne : x ≠ s.machine.threads.schedulerCurrentThread cpu := by
          rintro rfl
          exact here.elim (queues cpu resource pid rfl).1 (queues cpu resource pid rfl).2
        rw [Action.waits, Function.update_of_ne ne] at waits
        exact waits
    | schedule | create | init | addReady | finish | wake | wakeAll => exact waits
  exact
    { machine := reached.next taken
      joiner := joiner
      tests := tests
      alive := by
        intro x pid joins
        have joins' : (s.place x).joining = some pid := by
          rcases place x with same | gone | ⟨cpu, pid', -, -, before, after⟩
          · rw [← same]
            exact joins
          · rw [gone] at joins
            cases joins
          · rw [after] at joins
            rw [before]
            exact joins
        obtain ⟨tid, alive, valid⟩ := joiners.alive x pid joins'
        refine ⟨tid, ?_, valid⟩
        intro dies
        rcases effect.dies x dies with before | ⟨cpu, is, same⟩
        · exact alive before
        · have gone := finishes cpu is
          rw [State.current, ← same, joins'] at gone
          cases gone
      asked := by
        intro x pid asks
        have asks' : s.place x = .asked pid := by
          rcases place x with same | gone | ⟨cpu, pid', -, -, -, after⟩
          · rw [← same]
            exact asks
          · rw [asks] at gone
            cases gone
          · rw [after] at asks
            cases asks
        by_contra queued
        exact queued ((waits x pid (.inl asks') queued).trans (joiners.asked x pid asks'))
      left := by
        intro x pid left queued
        rcases place x with same | gone | ⟨cpu, pid', rfl, rfl, before, -⟩
        · rw [same] at left
          obtain ⟨tid, -⟩ := joiners.alive x pid (by rw [left]; rfl)
          refine sleeping_stays reached taken tid (joiners.left x pid left ?_) queued
          rw [← waits x pid (.inr left) queued]
          exact queued
        · rw [left] at gone
          cases gone
        · obtain ⟨tid, -⟩ := joiners.alive _ pid' (by rw [before]; rfl)
          exact switched_sleeps reached taken tid queued }

/-- A joiner holds the lock: nothing else happens on its CPU. -/
theorem other (joiners : Joiners cpus s) {a : Action} {m : Machine}
    (alone : s.leavesAlone base a = true)
    (taken : (threadSystem cpus).step s.machine a = some m) :
    Joiners cpus { s with machine := m, place := s.placeAfter a, processId := s.processIdAfter a } := by
  have reached := joiners.machine
  simp only [State.leavesAlone, Bool.and_eq_true] at alone
  obtain ⟨-, apart⟩ := alone
  have elsewhere : ∀ cpu sec, s.holder = some (cpu, sec) → a.cpu ≠ some cpu := by
    intro cpu sec held same
    rw [same, held] at apart
    simp at apart
  obtain ⟨allowed, -, ready, chain, ready', placed, -, -⟩ := step_effect reached taken
  have place : ∀ x, s.placeAfter a x = s.place x ∨ (s.placeAfter a x).joining = none ∨
      ∃ cpu pid, a = .schedule cpu ∧ x = s.current cpu ∧ s.place x = .leaving pid ∧
        s.placeAfter a x = .left pid := by
    intro x
    cases a with
    | schedule cpu =>
        by_cases same : x = s.current cpu
        · subst same
          rw [State.placeAfter, Function.update_self]
          cases leaves : s.place (s.current cpu) with
          | leaving pid => exact .inr (.inr ⟨cpu, pid, rfl, rfl, rfl, rfl⟩)
          | out | spawning | asked | inside | left | finished => exact .inl rfl
        · exact .inl (Function.update_of_ne same _ _)
    | init t =>
        by_cases same : x = t
        · subst same
          refine .inr (.inl ?_)
          rw [State.placeAfter, Function.update_self]
          rfl
        · exact .inl (Function.update_of_ne same _ _)
    | create | addReady | finish | sleepqAdd | wake | wakeAll => exact .inl rfl
  refine joiners.moves (a := a) taken ?_ ?_ place ?_ ?_
  · intro cpu sec pid held joins
    obtain ⟨on, inside⟩ := joiners.joiner cpu sec pid held joins
    have current : m.threads.schedulerCurrentThread cpu = s.current cpu := by
      apply current_stays reached taken
      rintro rfl
      exact elsewhere cpu sec held rfl
    refine ⟨on, ?_⟩
    show s.placeAfter a (m.threads.schedulerCurrentThread cpu) = .inside pid
    rw [current]
    obtain ⟨tid, -⟩ := joiners.alive _ pid (by rw [inside]; rfl)
    cases a with
    | schedule c =>
        rw [State.placeAfter]
        by_cases same : s.current cpu = s.current c
        · rw [← same, Function.update_self, inside]
          rfl
        · rw [Function.update_of_ne same]
          exact inside
    | init t =>
        -- a new thread is not running anywhere
        have ne : s.current cpu ≠ t := by
          rintro rfl
          have reserved : s.machine.birth (s.current cpu) = .reserved := by
            simpa [Machine.allows] using allowed
          obtain ⟨-, nonready⟩ := placed.unborn _ (by rw [reserved]; decide)
          have busy : s.machine.threads.schedulerCurrentThread cpu ≠ 0 := by
            intro none
            have := tid.1
            rw [State.current, none] at this
            omega
          obtain ⟨-, bad | bad⟩ := placed.current cpu on busy <;>
            rw [State.current, bad] at nonready <;> cases nonready
        rw [State.placeAfter, Function.update_of_ne ne]
        exact inside
    | create | addReady | finish | sleepqAdd | wake | wakeAll => exact inside
  · intro cpu pid held
    exact (acts_stays reached taken (joiners.joiner cpu _ pid held rfl).1
      (joiners.tests cpu pid held) (elsewhere cpu _ held)).1
  · rintro cpu rfl
    simp only [Action.cpu, Bool.and_eq_true, Bool.or_eq_true, decide_eq_true_eq, reduceCtorEq,
      false_or, true_and] at apart
    rcases apart.2 with out | finished
    · rw [out]
      rfl
    · rw [finished]
      rfl
  · rintro cpu resource pid rfl
    simp only [Action.cpu, Bool.and_eq_true, Bool.or_eq_true, decide_eq_true_eq, reduceCtorEq,
      false_or, false_and, or_false] at apart
    rw [apart.2]
    simp

/-- The thread of a CPU that makes a call. -/
theorem of_calls {cpu : Nat} (calls : s.calls cpus cpu = true) :
    cpu < cpus ∧ s.machine.threads.acts cpu = true ∧ s.place (s.current cpu) = .out ∧
      ∀ sec, s.holder ≠ some (cpu, sec) := by
  simp only [State.calls, Bool.and_eq_true, decide_eq_true_eq] at calls
  obtain ⟨⟨⟨on, acts⟩, out⟩, apart⟩ := calls
  refine ⟨on, acts, out, ?_⟩
  intro sec held
  rw [held] at apart
  exact apart rfl

/-- A thread that calls `process_join` and may. -/
theorem asks (joiners : Joiners cpus s) {cpu : Nat} {pid : Int} (calls : s.calls cpus cpu = true)
    (valid : 0 ≤ pid ∧ pid < PROCESS_MAX_PROCESSES) :
    Joiners cpus (s.setPlace cpu (.asked pid)) := by
  obtain ⟨on, acts, out, -⟩ := of_calls calls
  obtain ⟨-, runs, awake⟩ := Placed.acts_iff.1 acts
  have tid := isTid_of_acts joiners.machine on acts
  exact
    { machine := joiners.machine
      joiner := by
        intro c sec pid' held joins
        obtain ⟨other, inside⟩ := joiners.joiner c sec pid' held joins
        have ne : s.current c ≠ s.current cpu := by
          intro same
          rw [same, out] at inside
          cases inside
        exact ⟨other, (Function.update_of_ne ne _ _).trans inside⟩
      tests := joiners.tests
      alive := by
        intro x pid' joins
        simp only [State.setPlace] at joins
        by_cases same : x = s.current cpu
        · subst same
          rw [Function.update_self] at joins
          cases joins
          refine ⟨tid, ?_, valid⟩
          intro dies
          exact absurd (runs.symm.trans dies) (by decide)
        · rw [Function.update_of_ne same] at joins
          exact joiners.alive x pid' joins
      asked := by
        intro x pid' asks
        simp only [State.setPlace] at asks
        by_cases same : x = s.current cpu
        · subst same
          exact awake
        · rw [Function.update_of_ne same] at asks
          exact joiners.asked x pid' asks
      left := by
        intro x pid' left
        simp only [State.setPlace] at left
        by_cases same : x = s.current cpu
        · rw [same, Function.update_self] at left
          cases left
        · rw [Function.update_of_ne same] at left
          exact joiners.left x pid' left }

/-- A joiner takes the lock, for the first time or after its switch. -/
theorem locks (joiners : Joiners cpus s) {cpu : Nat} {pid : Int} (on : cpu < cpus)
    (place : s.place (s.current cpu) = .asked pid ∨ s.place (s.current cpu) = .left pid) :
    Joiners cpus (({ s with holder := some (cpu, .testing pid) } : State).setPlace cpu
      (.inside pid)) := by
  have joins : (s.place (s.current cpu)).joining = some pid := by
    rcases place with asks | left
    · rw [asks]
      rfl
    · rw [left]
      rfl
  obtain ⟨tid, alive, valid⟩ := joiners.alive _ pid joins
  obtain ⟨-, ready, chain, placed⟩ := placed_reachable joiners.machine
  have busy : s.machine.threads.schedulerCurrentThread cpu ≠ 0 := by
    intro none
    have := tid.1
    rw [State.current, none] at this
    omega
  have runs : s.machine.threads.state (s.current cpu) = .running :=
    (placed.current cpu on busy).2.resolve_right alive
  have awake : s.machine.threads.sleepsOn (s.current cpu) = 0 := by
    rcases place with asks | left
    · exact joiners.asked _ pid asks
    · by_contra queued
      exact absurd (runs.symm.trans (joiners.left _ pid left queued)) (by decide)
  exact
    { machine := joiners.machine
      joiner := by
        intro c sec pid' held joins
        simp only [State.setPlace, Option.some.injEq, Prod.mk.injEq] at held
        obtain ⟨rfl, rfl⟩ := held
        cases joins
        exact ⟨on, Function.update_self _ _ _⟩
      tests := by
        intro c pid' held
        simp only [State.setPlace, Option.some.injEq, Prod.mk.injEq] at held
        obtain ⟨rfl, -⟩ := held
        exact Placed.acts_iff.2 ⟨busy, runs, awake⟩
      alive := by
        intro x pid' joins'
        simp only [State.setPlace] at joins'
        by_cases same : x = s.current cpu
        · subst same
          rw [show ({ s with holder := some (cpu, .testing pid) } : State).current cpu =
            s.current cpu from rfl, Function.update_self] at joins'
          cases joins'
          exact ⟨tid, alive, valid⟩
        · rw [Function.update_of_ne (by exact same)] at joins'
          exact joiners.alive x pid' joins'
      asked := by
        intro x pid' asks
        simp only [State.setPlace] at asks
        by_cases same : x = s.current cpu
        · exact same ▸ awake
        · rw [Function.update_of_ne (by exact same)] at asks
          exact joiners.asked x pid' asks
      left := by
        intro x pid' left
        simp only [State.setPlace] at left
        by_cases same : x = s.current cpu
        · exact fun queued => absurd (same ▸ awake) queued
        · rw [Function.update_of_ne (by exact same)] at left
          exact joiners.left x pid' left }

/-- A joiner that is queued releases the lock. -/
theorem leaves (joiners : Joiners cpus s) {cpu : Nat} {pid : Int}
    (held : s.holder = some (cpu, .queued pid)) :
    Joiners cpus (({ s with holder := none } : State).setPlace cpu (.leaving pid)) := by
  obtain ⟨on, inside⟩ := joiners.joiner cpu _ pid held rfl
  obtain ⟨tid, alive, valid⟩ := joiners.alive _ pid (by rw [inside]; rfl)
  exact
    { machine := joiners.machine
      joiner := by simp [State.setPlace]
      tests := by simp [State.setPlace]
      alive := by
        intro x pid' joins
        simp only [State.setPlace] at joins
        by_cases same : x = s.current cpu
        · subst same
          rw [show ({ s with holder := none } : State).current cpu = s.current cpu from rfl,
            Function.update_self] at joins
          cases joins
          exact ⟨tid, alive, valid⟩
        · rw [Function.update_of_ne (by exact same)] at joins
          exact joiners.alive x pid' joins
      asked := by
        intro x pid' asks
        simp only [State.setPlace] at asks
        by_cases same : x = s.current cpu
        · rw [same, show ({ s with holder := none } : State).current cpu = s.current cpu from rfl,
            Function.update_self] at asks
          cases asks
        · rw [Function.update_of_ne (by exact same)] at asks
          exact joiners.asked x pid' asks
      left := by
        intro x pid' left
        simp only [State.setPlace] at left
        by_cases same : x = s.current cpu
        · rw [same, show ({ s with holder := none } : State).current cpu = s.current cpu from rfl,
            Function.update_self] at left
          cases left
        · rw [Function.update_of_ne (by exact same)] at left
          exact joiners.left x pid' left }

/-- **Every step** keeps the joiners so. -/
theorem step (joiners : Joiners cpus s) {a : Act} {t : State}
    (taken : Wakeup.step base cpus s a = some t) : Joiners cpus t := by
  cases a with
  | other a =>
      simp only [Wakeup.step] at taken
      split at taken
      · rename_i alone
        obtain ⟨m, moved, rfl⟩ := Option.map_eq_some_iff.1 taken
        exact joiners.other alone moved
      · cases taken
  | spawnAlloc cpu =>
      simp only [Wakeup.step] at taken
      split at taken
      · rename_i ready
        obtain ⟨-, -, out, -⟩ := of_calls ready.1
        split at taken
        · rename_i pid table ran
          split at taken
          · cases taken
            exact joiners.goes rfl (s.current cpu) rfl rfl fun _ _ _ held joins =>
              ⟨held, joiners.apart held joins (by rw [out]; rfl)⟩
          · split at taken
            · cases taken
              exact ⟨joiners.machine, joiners.joiner, joiners.tests, joiners.alive, joiners.asked,
                joiners.left⟩
            · cases taken
        · cases taken
      · cases taken
  | spawnFill cpu executable =>
      simp only [Wakeup.step] at taken
      split at taken
      · rename_i pid place
        cases taken
        exact joiners.goes rfl (s.current cpu) rfl rfl fun _ _ _ held joins =>
          ⟨held, joiners.apart held joins (by rw [place]; rfl)⟩
      · cases taken
  | start cpu pid =>
      simp only [Wakeup.step] at taken
      split at taken
      · cases taken
        exact ⟨joiners.machine, joiners.joiner, joiners.tests, joiners.alive, joiners.asked,
          joiners.left⟩
      · cases taken
  | joinAsk cpu pid =>
      simp only [Wakeup.step] at taken
      split at taken
      · rename_i calls
        split at taken
        · rename_i allowed
          cases taken
          obtain ⟨low, high, -⟩ := joinAllowed_iff.1 allowed
          exact joiners.asks calls ⟨low, high⟩
        · cases taken
          exact joiners
      · cases taken
  | joinLock cpu =>
      simp only [Wakeup.step] at taken
      split at taken
      · rename_i ready
        split at taken
        · rename_i pid place
          cases taken
          exact joiners.locks ready.1 (.inl place)
        · rename_i pid place
          cases taken
          exact joiners.locks ready.1 (.inr place)
        · cases taken
      · cases taken
  | joinQueue cpu =>
      simp only [Wakeup.step] at taken
      split at taken
      · rename_i c pid held
        split at taken
        · rename_i ready
          obtain ⟨rfl, -⟩ := ready
          obtain ⟨m, moved, rfl⟩ := Option.map_eq_some_iff.1 taken
          obtain ⟨on, inside⟩ := joiners.joiner c _ pid held rfl
          refine joiners.moves (a := .sleepqAdd c (entryAddress base pid)) moved ?_ ?_
            (fun x => .inl rfl) ?_ ?_
          · intro c' sec pid' held' joins
            simp only [Option.some.injEq, Prod.mk.injEq] at held'
            obtain ⟨rfl, rfl⟩ := held'
            cases joins
            refine ⟨on, ?_⟩
            have current : m.threads.schedulerCurrentThread c = s.current c :=
              current_stays joiners.machine moved (by simp)
            show s.place (m.threads.schedulerCurrentThread c) = _
            rw [current]
            exact inside
          · simp
          · simp
          · rintro c' resource pid' same
            cases same
            rw [inside]
            simp
        · cases taken
      · cases taken
  | joinLeave cpu =>
      simp only [Wakeup.step] at taken
      split at taken
      · rename_i c pid held
        split at taken
        · rename_i same
          subst same
          cases taken
          exact joiners.leaves held
        · cases taken
      · cases taken
  | joinCollect cpu =>
      simp only [Wakeup.step] at taken
      split at taken
      · rename_i c pid held
        split at taken
        · rename_i ready
          obtain ⟨rfl, -⟩ := ready
          cases taken
          exact joiners.goes rfl (s.current c) rfl rfl (by simp [State.setPlace])
        · cases taken
      · cases taken
  | finishLock cpu retval =>
      simp only [Wakeup.step] at taken
      split at taken
      · cases taken
        refine joiners.goes rfl (s.current cpu) rfl rfl ?_
        intro c sec pid held joins
        simp only [State.setPlace, Option.some.injEq, Prod.mk.injEq] at held
        rw [← held.2] at joins
        cases joins
      · cases taken
  | finishWake cpu =>
      simp only [Wakeup.step] at taken
      split at taken
      · rename_i c pid held
        split at taken
        · rename_i same
          subst same
          obtain ⟨m, moved, rfl⟩ := Option.map_eq_some_iff.1 taken
          refine joiners.moves (a := .wakeAll (entryAddress base pid)) moved ?_ ?_
            (fun x => .inl rfl) ?_ ?_
          · intro c' sec pid' held' joins
            simp only [Option.some.injEq, Prod.mk.injEq] at held'
            rw [← held'.2] at joins
            cases joins
          · simp
          · simp
          · simp
        · cases taken
      · cases taken
  | finishDone cpu =>
      simp only [Wakeup.step] at taken
      split at taken
      · rename_i c pid held
        split at taken
        · cases taken
          exact ⟨joiners.machine, by simp, by simp, joiners.alive, joiners.asked, joiners.left⟩
        · cases taken
      · cases taken

end Joiners

/-! ## Which thread runs which process -/

/-- Thread `t` runs process `pid` and has not called `process_finish`. -/
def State.Runs (s : State) (t pid : Int) : Prop :=
  s.processId t = pid ∧ 0 ≤ pid ∧ s.place t ≠ .finished

/-- A pid in the table. -/
def IsPid (pid : Int) : Prop := 0 ≤ pid ∧ pid < PROCESS_MAX_PROCESSES

/-- An entry is filled, then waits for its thread, then is run by one thread; only then is
it a zombie. -/
structure Owned (s : State) : Prop where
  runs : ∀ t pid, s.Runs t pid → IsPid pid ∧ (s.table pid).state = .running ∧
    s.reserved pid = false ∧ (∀ u, s.place u ≠ .spawning pid) ∧ ∀ u, s.Runs u pid → u = t
  reserved : ∀ pid, s.reserved pid = true → IsPid pid ∧ (s.table pid).state = .running ∧
    ∀ u, s.place u ≠ .spawning pid
  spawning : ∀ t pid, s.place t = .spawning pid → IsPid pid ∧ (s.table pid).state = .running ∧
    ∀ u, s.place u = .spawning pid → u = t
  value : ∀ pid, IsPid pid → (s.table pid).state = .zombie → (s.table pid).retval = s.stored pid
  logged : ∀ r ∈ s.returned, r.value = r.stored
  zombied : ∀ cpu pid, s.holder = some (cpu, .zombied pid) → IsPid pid

namespace Owned

variable {base cpus : Nat} {s : State}

theorem start : Owned boot where
  runs := by
    rintro t pid ⟨rfl, low, -⟩
    simp [boot, kernelPid] at low
  reserved := by simp [boot]
  spawning := by simp [boot]
  value := by simp [boot, processInit_zeroTable, zeroTable]
  logged := by simp [boot]
  zombied := by simp [boot]

/-- A step that changes no entry and starts or ends no process. -/
theorem keeps (owned : Owned s) {t : State}
    (table : ∀ pid, IsPid pid → t.table pid = s.table pid) (reserved : t.reserved = s.reserved)
    (stored : t.stored = s.stored) (returned : t.returned = s.returned)
    (runs : ∀ x pid, t.Runs x pid → s.Runs x pid)
    (spawning : ∀ x pid, t.place x = .spawning pid → s.place x = .spawning pid)
    (zombied : ∀ cpu pid, t.holder = some (cpu, .zombied pid) → s.holder = some (cpu, .zombied pid)) :
    Owned t where
  runs := by
    intro x pid run
    obtain ⟨isPid, running, unreserved, filled, only⟩ := owned.runs x pid (runs x pid run)
    rw [table pid isPid, reserved]
    exact ⟨isPid, running, unreserved, fun u spawns => filled u (spawning u pid spawns),
      fun u run' => only u (runs u pid run')⟩
  reserved := by
    intro pid waits
    rw [reserved] at waits
    obtain ⟨isPid, running, filled⟩ := owned.reserved pid waits
    rw [table pid isPid]
    exact ⟨isPid, running, fun u spawns => filled u (spawning u pid spawns)⟩
  spawning := by
    intro x pid spawns
    obtain ⟨isPid, running, only⟩ := owned.spawning x pid (spawning x pid spawns)
    rw [table pid isPid]
    exact ⟨isPid, running, fun u spawns' => only u (spawning u pid spawns')⟩
  value := by
    intro pid isPid
    rw [table pid isPid, stored]
    exact owned.value pid isPid
  logged := by
    rw [returned]
    exact owned.logged
  zombied := fun cpu pid held => owned.zombied cpu pid (zombied cpu pid held)

/-- A thread goes from one place to another and still runs its process. -/
theorem goes (owned : Owned s) {cpu : Nat} {p : Place} (before : s.place (s.current cpu) ≠ .finished)
    (after : ∀ pid, p ≠ .spawning pid) {holder : Option (Nat × Section)}
    (zombied : ∀ c pid, holder = some (c, .zombied pid) → s.holder = some (c, .zombied pid)) :
    Owned (({ s with holder := holder } : State).setPlace cpu p) := by
  refine owned.keeps (fun _ _ => rfl) rfl rfl rfl ?_ ?_ zombied
  · rintro x pid ⟨same, low, going⟩
    refine ⟨same, low, ?_⟩
    by_cases here : x = s.current cpu
    · exact here ▸ before
    · intro finished
      exact going ((Function.update_of_ne (by exact here) _ _).trans finished)
  · intro x pid spawns
    simp only [State.setPlace] at spawns
    by_cases here : x = s.current cpu
    · subst here
      rw [show ({ s with holder := holder } : State).current cpu = s.current cpu from rfl,
        Function.update_self] at spawns
      exact absurd spawns (after pid)
    · rw [Function.update_of_ne (by exact here)] at spawns
      exact spawns

/-- `alloc_process_id` takes a free entry. -/
theorem allocates (owned : Owned s) {cpu : Nat} {pid : Int} (isPid : IsPid pid)
    (free : (s.table pid).state = .free) (out : s.place (s.current cpu) = .out) :
    Owned (({ s with
      table := Function.update s.table pid { s.table pid with state := .running } } :
        State).setPlace cpu (.spawning pid)) := by
  have ne : ∀ q, (s.table q).state = .running → q ≠ pid := by
    rintro q running rfl
    rw [free] at running
    cases running
  have kept : ∀ q, q ≠ pid →
      Function.update s.table pid { s.table pid with state := .running } q = s.table q :=
    fun q other => Function.update_of_ne other _ _
  have place : ∀ x, x ≠ s.current cpu →
      Function.update s.place (s.current cpu) (.spawning pid) x = s.place x :=
    fun x other => Function.update_of_ne other _ _
  have runs : ∀ x q, (({ s with
      table := Function.update s.table pid { s.table pid with state := .running } } :
        State).setPlace cpu (.spawning pid)).Runs x q → s.Runs x q := by
    rintro x q ⟨same, low, going⟩
    refine ⟨same, low, ?_⟩
    by_cases here : x = s.current cpu
    · rw [here, out]
      decide
    · intro finished
      exact going ((place x here).trans finished)
  have spawning : ∀ x q, q ≠ pid →
      Function.update s.place (s.current cpu) (.spawning pid) x = .spawning q →
        s.place x = .spawning q := by
    intro x q other spawns
    by_cases here : x = s.current cpu
    · rw [here, Function.update_self] at spawns
      cases spawns
      exact absurd rfl other
    · rwa [place x here] at spawns
  exact
    { runs := by
        intro x q run
        obtain ⟨valid, running, unreserved, filled, only⟩ := owned.runs x q (runs x q run)
        have other := ne q running
        refine ⟨valid, ?_, unreserved, fun u spawns => filled u (spawning u q other spawns),
          fun u run' => only u (runs u q run')⟩
        exact (congrArg ProcessEntry.state (kept q other)).trans running
      reserved := by
        intro q waits
        obtain ⟨valid, running, filled⟩ := owned.reserved q waits
        have other := ne q running
        exact ⟨valid, (congrArg ProcessEntry.state (kept q other)).trans running,
          fun u spawns => filled u (spawning u q other spawns)⟩
      spawning := by
        intro x q spawns
        by_cases same : q = pid
        · subst same
          have nobody : ∀ u, u ≠ s.current cpu →
              Function.update s.place (s.current cpu) (.spawning q) u ≠ .spawning q := by
            intro u away spawns'
            rw [place u away] at spawns'
            have running := (owned.spawning u q spawns').2.1
            exact ne q running rfl
          have only : ∀ u, Function.update s.place (s.current cpu) (.spawning q) u = .spawning q →
              u = s.current cpu := by
            intro u spawns'
            by_contra away
            exact nobody u away spawns'
          refine ⟨isPid, ?_, fun u spawns' => (only u spawns').trans (only x spawns).symm⟩
          show (Function.update s.table q _ q).state = .running
          rw [Function.update_self]
        · obtain ⟨valid, running, only⟩ := owned.spawning x q (spawning x q same spawns)
          exact ⟨valid, (congrArg ProcessEntry.state (kept q same)).trans running,
            fun u spawns' => only u (spawning u q same spawns')⟩
      value := by
        intro q valid zombie
        have other : q ≠ pid := by
          rintro rfl
          have := zombie
          simp only [State.setPlace, Function.update_self] at this
          cases this
        have same := kept q other
        simp only [State.setPlace, same] at zombie ⊢
        exact owned.value q valid zombie
      logged := owned.logged
      zombied := owned.zombied }

/-- `process_spawn` fills its entry and leaves it to the new thread. -/
theorem fills (owned : Owned s) {cpu : Nat} {pid cur : Int} {executable : Name}
    (place : s.place (s.current cpu) = .spawning pid) :
    Owned (({ s with
      table := Proc.spawnFill s.table cur pid executable
      reserved := Function.update s.reserved pid true } : State).setPlace cpu .out) := by
  obtain ⟨isPid, running, only⟩ := owned.spawning _ pid place
  have state : ∀ q, (Proc.spawnFill s.table cur pid executable q).state = (s.table q).state := by
    intro q
    by_cases same : q = pid
    · rw [same, Proc.spawnFill, Function.update_self]
    · rw [Proc.spawnFill, Function.update_of_ne same]
  have retval : ∀ q, (Proc.spawnFill s.table cur pid executable q).retval = (s.table q).retval := by
    intro q
    by_cases same : q = pid
    · rw [same, Proc.spawnFill, Function.update_self]
    · rw [Proc.spawnFill, Function.update_of_ne same]
  have places : ∀ x q, Function.update s.place (s.current cpu) .out x = .spawning q →
      s.place x = .spawning q ∧ q ≠ pid := by
    intro x q spawns
    have away : x ≠ s.current cpu := by
      rintro rfl
      rw [Function.update_self] at spawns
      cases spawns
    rw [Function.update_of_ne away] at spawns
    refine ⟨spawns, ?_⟩
    rintro rfl
    exact away (only x spawns)
  have runs : ∀ x q, (({ s with
      table := Proc.spawnFill s.table cur pid executable
      reserved := Function.update s.reserved pid true } : State).setPlace cpu .out).Runs x q →
        s.Runs x q := by
    rintro x q ⟨same, low, going⟩
    refine ⟨same, low, ?_⟩
    by_cases here : x = s.current cpu
    · rw [here, place]
      simp
    · intro finished
      exact going ((Function.update_of_ne (by exact here) _ _).trans finished)
  exact
    { runs := by
        intro x q run
        obtain ⟨valid, runningQ, unreserved, filled, onlyQ⟩ := owned.runs x q (runs x q run)
        have other : q ≠ pid := by
          rintro rfl
          exact filled _ place
        exact ⟨valid, (state q).trans runningQ, (Function.update_of_ne other _ _).trans unreserved,
          fun u spawns => filled u (places u q spawns).1, fun u run' => onlyQ u (runs u q run')⟩
      reserved := by
        intro q waits
        by_cases same : q = pid
        · subst same
          exact ⟨isPid, (state q).trans running, fun u spawns => (places u q spawns).2 rfl⟩
        · have waits' : s.reserved q = true := (Function.update_of_ne same _ _).symm.trans waits
          obtain ⟨valid, runningQ, filled⟩ := owned.reserved q waits'
          exact ⟨valid, (state q).trans runningQ, fun u spawns => filled u (places u q spawns).1⟩
      spawning := by
        intro x q spawns
        obtain ⟨valid, runningQ, onlyQ⟩ := owned.spawning x q (places x q spawns).1
        exact ⟨valid, (state q).trans runningQ, fun u spawns' => onlyQ u (places u q spawns').1⟩
      value := by
        intro q valid zombie
        exact (retval q).trans (owned.value q valid ((state q).symm.trans zombie))
      logged := owned.logged
      zombied := owned.zombied }

/-- `process_start`: a thread takes its process. -/
theorem starts (owned : Owned s) {cpu : Nat} {pid : Int} (waits : s.reserved pid = true) :
    Owned { s with
      processId := Function.update s.processId (s.current cpu) pid
      reserved := Function.update s.reserved pid false } := by
  obtain ⟨isPid, running, filled⟩ := owned.reserved pid waits
  have runs : ∀ x q, x ≠ s.current cpu → State.Runs { s with
      processId := Function.update s.processId (s.current cpu) pid
      reserved := Function.update s.reserved pid false } x q → s.Runs x q := by
    rintro x q away ⟨same, low, going⟩
    exact ⟨(Function.update_of_ne away _ _).symm.trans same, low, going⟩
  have here : ∀ q, State.Runs { s with
      processId := Function.update s.processId (s.current cpu) pid
      reserved := Function.update s.reserved pid false } (s.current cpu) q → q = pid := by
    rintro q ⟨same, -, -⟩
    exact same.symm.trans (Function.update_self _ _ _)
  have notPid : ∀ x q, s.Runs x q → q ≠ pid := by
    rintro x q run rfl
    have := (owned.runs x q run).2.2.1
    rw [waits] at this
    cases this
  exact
    { runs := by
        intro x q run
        by_cases same : x = s.current cpu
        · subst same
          have eq := here q run
          subst eq
          refine ⟨isPid, running, Function.update_self _ _ _, filled, ?_⟩
          intro u run'
          by_contra away
          exact notPid u q (runs u q away run') rfl
        · have old := runs x q same run
          obtain ⟨valid, runningQ, unreserved, filledQ, only⟩ := owned.runs x q old
          refine ⟨valid, runningQ, (Function.update_of_ne (notPid x q old) _ _).trans unreserved,
            filledQ, ?_⟩
          intro u run'
          by_cases away : u = s.current cpu
          · subst away
            exact absurd (here q run') (notPid x q old)
          · exact only u (runs u q away run')
      reserved := by
        intro q waits'
        have other : q ≠ pid := by
          rintro rfl
          simp at waits'
        exact owned.reserved q ((Function.update_of_ne other _ _).symm.trans waits')
      spawning := owned.spawning
      value := owned.value
      logged := owned.logged
      zombied := owned.zombied }

/-- `process_join` collects a zombie. -/
theorem collects (owned : Owned s) {cpu : Nat} {pid : Int} (isPid : IsPid pid)
    (zombie : (s.table pid).state = .zombie) (place : s.place (s.current cpu) ≠ .finished) :
    Owned (({ s with
      table := processReset s.table pid
      holder := none
      returned := s.returned ++ [⟨(s.table pid).retval, s.stored pid⟩] } :
        State).setPlace cpu .out) := by
  have ne : ∀ q, (s.table q).state = .running → q ≠ pid := by
    rintro q running rfl
    rw [zombie] at running
    cases running
  have kept : ∀ q, q ≠ pid → processReset s.table pid q = s.table q :=
    fun q other => Function.update_of_ne other _ _
  have spawning : ∀ x q, Function.update s.place (s.current cpu) .out x = .spawning q →
      s.place x = .spawning q := by
    intro x q spawns
    by_cases here : x = s.current cpu
    · rw [here, Function.update_self] at spawns
      cases spawns
    · rwa [Function.update_of_ne here] at spawns
  have runs : ∀ x q, (({ s with
      table := processReset s.table pid
      holder := none
      returned := s.returned ++ [⟨(s.table pid).retval, s.stored pid⟩] } :
        State).setPlace cpu .out).Runs x q → s.Runs x q := by
    rintro x q ⟨same, low, going⟩
    refine ⟨same, low, ?_⟩
    by_cases here : x = s.current cpu
    · exact here ▸ place
    · intro finished
      exact going ((Function.update_of_ne (by exact here) _ _).trans finished)
  exact
    { runs := by
        intro x q run
        obtain ⟨valid, running, unreserved, filled, only⟩ := owned.runs x q (runs x q run)
        exact ⟨valid, (congrArg ProcessEntry.state (kept q (ne q running))).trans running,
          unreserved, fun u spawns => filled u (spawning u q spawns),
          fun u run' => only u (runs u q run')⟩
      reserved := by
        intro q waits
        obtain ⟨valid, running, filled⟩ := owned.reserved q waits
        exact ⟨valid, (congrArg ProcessEntry.state (kept q (ne q running))).trans running,
          fun u spawns => filled u (spawning u q spawns)⟩
      spawning := by
        intro x q spawns
        obtain ⟨valid, running, only⟩ := owned.spawning x q (spawning x q spawns)
        exact ⟨valid, (congrArg ProcessEntry.state (kept q (ne q running))).trans running,
          fun u spawns' => only u (spawning u q spawns')⟩
      value := by
        intro q valid zombie'
        have other : q ≠ pid := by
          rintro rfl
          have := zombie'
          simp only [State.setPlace, processReset, Function.update_self] at this
          cases this
        simp only [State.setPlace, kept q other] at zombie' ⊢
        exact owned.value q valid zombie'
      logged := by
        intro r mem
        rcases List.mem_append.1 mem with old | new
        · exact owned.logged r old
        · rw [List.mem_singleton.1 new]
          exact owned.value pid isPid zombie
      zombied := by simp [State.setPlace] }

/-- `process_finish` makes its entry a zombie; it was none before. -/
theorem finishes (owned : Owned s) {cpu : Nat} {retval : Int}
    (run : s.Runs (s.current cpu) (s.processId (s.current cpu))) :
    Owned (({ s with
      table := processFinish s.table (s.processId (s.current cpu)) retval
      holder := some (cpu, .zombied (s.processId (s.current cpu)))
      stored := if (s.table (s.processId (s.current cpu))).state = .zombie then s.stored
        else Function.update s.stored (s.processId (s.current cpu)) retval } :
          State).setPlace cpu .finished) := by
  obtain ⟨pid, is⟩ : ∃ pid, pid = s.processId (s.current cpu) := ⟨_, rfl⟩
  rw [← is] at run ⊢
  obtain ⟨isPid, running, unreserved, filled, only⟩ := owned.runs _ pid run
  rw [if_neg (by rw [running]; decide)]
  have kept : ∀ q, q ≠ pid → processFinish s.table pid retval q = s.table q :=
    fun q other => Function.update_of_ne other _ _
  have spawning : ∀ x q, Function.update s.place (s.current cpu) .finished x = .spawning q →
      s.place x = .spawning q := by
    intro x q spawns
    by_cases here : x = s.current cpu
    · rw [here, Function.update_self] at spawns
      cases spawns
    · rwa [Function.update_of_ne here] at spawns
  have runs : ∀ x q, (({ s with
      table := processFinish s.table pid retval
      holder := some (cpu, .zombied pid)
      stored := Function.update s.stored pid retval } : State).setPlace cpu .finished).Runs x q →
        s.Runs x q ∧ q ≠ pid := by
    rintro x q ⟨same, low, going⟩
    have away : x ≠ s.current cpu := by
      rintro rfl
      exact going (Function.update_self _ _ _)
    have old : s.Runs x q := ⟨same, low, fun finished =>
      going ((Function.update_of_ne (by exact away) _ _).trans finished)⟩
    refine ⟨old, ?_⟩
    rintro rfl
    exact away (only x old)
  exact
    { runs := by
        intro x q run'
        obtain ⟨old, other⟩ := runs x q run'
        obtain ⟨valid, runningQ, unreservedQ, filledQ, onlyQ⟩ := owned.runs x q old
        exact ⟨valid, (congrArg ProcessEntry.state (kept q other)).trans runningQ, unreservedQ,
          fun u spawns => filledQ u (spawning u q spawns), fun u run'' => onlyQ u (runs u q run'').1⟩
      reserved := by
        intro q waits
        obtain ⟨valid, runningQ, filledQ⟩ := owned.reserved q waits
        have other : q ≠ pid := by
          rintro rfl
          exact absurd (waits.symm.trans unreserved) (by decide)
        exact ⟨valid, (congrArg ProcessEntry.state (kept q other)).trans runningQ,
          fun u spawns => filledQ u (spawning u q spawns)⟩
      spawning := by
        intro x q spawns
        have old := spawning x q spawns
        obtain ⟨valid, runningQ, onlyQ⟩ := owned.spawning x q old
        have other : q ≠ pid := by
          rintro rfl
          exact filled x old
        exact ⟨valid, (congrArg ProcessEntry.state (kept q other)).trans runningQ,
          fun u spawns' => onlyQ u (spawning u q spawns')⟩
      value := by
        intro q valid zombie
        by_cases same : q = pid
        · subst same
          simp [State.setPlace, processFinish]
        · simp only [State.setPlace, kept q same, Function.update_of_ne same] at zombie ⊢
          exact owned.value q valid zombie
      logged := owned.logged
      zombied := by
        intro c q held
        simp only [State.setPlace, Option.some.injEq, Prod.mk.injEq, Section.zombied.injEq] at held
        exact held.2 ▸ isPid }

/-- The rest of the kernel starts no process, and ends none. -/
theorem runs_other {a : Action} {m : Machine} {x pid : Int} (run : State.Runs
    { s with machine := m, place := s.placeAfter a, processId := s.processIdAfter a } x pid) :
    s.Runs x pid := by
  obtain ⟨same, low, going⟩ := run
  cases a with
  | schedule cpu =>
      refine ⟨same, low, fun finished => going ?_⟩
      show Function.update s.place (s.current cpu) _ x = .finished
      by_cases here : x = s.current cpu
      · rw [here, Function.update_self, ← here, finished]
        rfl
      · rw [Function.update_of_ne here]
        exact finished
  | init t =>
      have away : x ≠ t := by
        rintro rfl
        have kernel : kernelPid = pid := (Function.update_self _ _ _).symm.trans same
        rw [← kernel] at low
        exact absurd low (by decide)
      refine ⟨(Function.update_of_ne away _ _).symm.trans same, low, fun finished => going ?_⟩
      exact (Function.update_of_ne away _ _).trans finished
  | create | addReady | finish | sleepqAdd | wake | wakeAll => exact ⟨same, low, going⟩

theorem spawning_other {a : Action} {x pid : Int} (spawns : s.placeAfter a x = .spawning pid) :
    s.place x = .spawning pid := by
  cases a with
  | schedule cpu =>
      rw [State.placeAfter] at spawns
      by_cases here : x = s.current cpu
      · rw [here, Function.update_self] at spawns
        rw [here]
        cases place : s.place (s.current cpu) with
        | spawning => rwa [place] at spawns
        | out | asked | inside | leaving | left | finished => rw [place] at spawns; cases spawns
      · rwa [Function.update_of_ne here] at spawns
  | init t =>
      rw [State.placeAfter] at spawns
      by_cases here : x = t
      · rw [here, Function.update_self] at spawns
        cases spawns
      · rwa [Function.update_of_ne here] at spawns
  | create | addReady | finish | sleepqAdd | wake | wakeAll => exact spawns

/-- **Every step** keeps the entries so. -/
theorem step (owned : Owned s) (joiners : Joiners cpus s) {a : Act} {t : State}
    (taken : Wakeup.step base cpus s a = some t) : Owned t := by
  cases a with
  | other a =>
      simp only [Wakeup.step] at taken
      split at taken
      · obtain ⟨m, -, rfl⟩ := Option.map_eq_some_iff.1 taken
        exact owned.keeps (fun _ _ => rfl) rfl rfl rfl (fun x pid run => runs_other run)
          (fun x pid spawns => spawning_other spawns) fun _ _ held => held
      · cases taken
  | spawnAlloc cpu =>
      simp only [Wakeup.step] at taken
      split at taken
      · rename_i ready
        obtain ⟨-, -, out, -⟩ := Joiners.of_calls ready.1
        split at taken
        · rename_i pid table ran
          rcases allocProcessId_cases ran with ⟨i, bound, rfl, free, rfl⟩ | ⟨rfl, rfl⟩
          · split at taken
            · rename_i small
              cases taken
              exact owned.allocates ⟨by omega, small⟩ free out
            · split at taken
              · rename_i full
                cases taken
                refine owned.keeps ?_ rfl rfl rfl (fun _ _ run => run) (fun _ _ sp => sp)
                  fun _ _ held => held
                rintro q ⟨-, small⟩
                exact Function.update_of_ne (by omega) _ _
              · cases taken
          · split at taken
            · rename_i small
              omega
            · split at taken
              · rename_i full
                omega
              · cases taken
        · cases taken
      · cases taken
  | spawnFill cpu executable =>
      simp only [Wakeup.step] at taken
      split at taken
      · rename_i pid place
        cases taken
        exact owned.fills place
      · cases taken
  | start cpu pid =>
      simp only [Wakeup.step] at taken
      split at taken
      · rename_i ready
        cases taken
        exact owned.starts ready.2.2
      · cases taken
  | joinAsk cpu pid =>
      simp only [Wakeup.step] at taken
      split at taken
      · rename_i calls
        obtain ⟨-, -, out, -⟩ := Joiners.of_calls calls
        split at taken
        · cases taken
          exact owned.goes (by rw [out]; decide) (by simp) fun _ _ held => held
        · cases taken
          exact owned
      · cases taken
  | joinLock cpu =>
      simp only [Wakeup.step] at taken
      split at taken
      · split at taken
        · rename_i pid place
          cases taken
          exact owned.goes (by rw [place]; simp) (by simp) (by simp)
        · rename_i pid place
          cases taken
          exact owned.goes (by rw [place]; simp) (by simp) (by simp)
        · cases taken
      · cases taken
  | joinQueue cpu =>
      simp only [Wakeup.step] at taken
      split at taken
      · split at taken
        · obtain ⟨m, -, rfl⟩ := Option.map_eq_some_iff.1 taken
          exact owned.keeps (fun _ _ => rfl) rfl rfl rfl (fun _ _ run => run) (fun _ _ sp => sp)
            (by simp)
        · cases taken
      · cases taken
  | joinLeave cpu =>
      simp only [Wakeup.step] at taken
      split at taken
      · rename_i c pid held
        split at taken
        · rename_i same
          subst same
          cases taken
          exact owned.goes (by rw [(joiners.joiner c _ pid held rfl).2]; simp) (by simp) (by simp)
        · cases taken
      · cases taken
  | joinCollect cpu =>
      simp only [Wakeup.step] at taken
      split at taken
      · rename_i c pid held
        split at taken
        · rename_i ready
          obtain ⟨rfl, zombie⟩ := ready
          cases taken
          have inside := (joiners.joiner c _ pid held rfl).2
          obtain ⟨-, -, valid⟩ := joiners.alive _ pid (by rw [inside]; rfl)
          exact owned.collects valid zombie (by rw [inside]; simp)
        · cases taken
      · cases taken
  | finishLock cpu retval =>
      simp only [Wakeup.step] at taken
      split at taken
      · rename_i ready
        cases taken
        obtain ⟨-, -, out, -⟩ := Joiners.of_calls ready.1
        exact owned.finishes ⟨rfl, ready.2.2, by rw [out]; decide⟩
      · cases taken
  | finishWake cpu =>
      simp only [Wakeup.step] at taken
      split at taken
      · split at taken
        · obtain ⟨m, -, rfl⟩ := Option.map_eq_some_iff.1 taken
          exact owned.keeps (fun _ _ => rfl) rfl rfl rfl (fun _ _ run => run) (fun _ _ sp => sp)
            (by simp)
        · cases taken
      · cases taken
  | finishDone cpu =>
      simp only [Wakeup.step] at taken
      split at taken
      · split at taken
        · cases taken
          exact owned.keeps (fun _ _ => rfl) rfl rfl rfl (fun _ _ run => run) (fun _ _ sp => sp)
            (by simp)
        · cases taken
      · cases taken

end Owned

/-! ## The addresses of the entries -/

/-- The table lies in the address space, and not at NULL. -/
abbrev Fits (base : Nat) : Prop :=
  0 < base ∧ base + PROCESS_TABLE_T_SIZE * PROCESS_MAX_PROCESSES ≤ 4294967296

section Addresses

variable {base : Nat}

theorem toNat_entryAddress (fits : Fits base) {pid : Int} (isPid : IsPid pid) :
    (entryAddress base pid).toNat = base + PROCESS_TABLE_T_SIZE * pid.toNat := by
  obtain ⟨-, room⟩ := fits
  obtain ⟨low, high⟩ := isPid
  simp only [PROCESS_TABLE_T_SIZE, PROCESS_MAX_PROCESSES] at *
  rw [entryAddress, BitVec.toNat_ofNat, PROCESS_TABLE_T_SIZE, Nat.mod_eq_of_lt]
  omega

theorem entryAddress_ne_zero (fits : Fits base) {pid : Int} (isPid : IsPid pid) :
    entryAddress base pid ≠ 0 := by
  intro null
  have address := toNat_entryAddress fits isPid
  rw [null] at address
  have positive := fits.1
  simp at address
  omega

theorem entryAddress_injective (fits : Fits base) {p q : Int} (isPid : IsPid p) (other : IsPid q)
    (same : entryAddress base p = entryAddress base q) : p = q := by
  have first := toNat_entryAddress fits isPid
  have second := toNat_entryAddress fits other
  rw [same, second] at first
  obtain ⟨low, -⟩ := isPid
  obtain ⟨low', -⟩ := other
  unfold PROCESS_TABLE_T_SIZE at first
  omega

theorem isEntry_entryAddress {pid : Int} (isPid : IsPid pid) :
    isEntry base (entryAddress base pid) = true := by
  obtain ⟨low, high⟩ := isPid
  refine List.any_eq_true.2 ⟨pid.toNat, List.mem_range.2 (by omega), ?_⟩
  rw [Int.toNat_of_nonneg low, decide_eq_true_eq]

end Addresses

/-! ## Nobody sleeps on a zombie -/

/-- Nobody is queued on a zombie, but for the one that `process_finish` is about to wake. -/
def Awake (base : Nat) (s : State) : Prop :=
  ∀ pid, IsPid pid → (s.table pid).state = .zombie → (∀ cpu, s.holder ≠ some (cpu, .zombied pid)) →
    queueOf s.machine.threads (entryAddress base pid) = []

/-- `alloc_process_id` makes no zombie. -/
theorem allocProcessId_zombie {table table' : ProcessTable} {pid q : Int}
    (ran : allocProcessId table = .returned (pid, table')) (zombie : (table' q).state = .zombie) :
    (table q).state = .zombie := by
  rcases allocProcessId_cases ran with ⟨i, -, -, -, rfl⟩ | ⟨-, rfl⟩
  · by_cases same : q = pid
    · rw [same, Function.update_self] at zombie
      cases zombie
    · rwa [Function.update_of_ne same] at zombie
  · exact zombie

namespace Awake

variable {base cpus : Nat} {s : State}

theorem start : Awake base boot := by
  intro pid _ zombie
  simp [boot, processInit_zeroTable, zeroTable] at zombie

/-- A step that wakes and queues nobody, and makes no zombie. -/
theorem keeps (awake : Awake base s) {t : State}
    (queue : ∀ pid, IsPid pid → queueOf t.machine.threads (entryAddress base pid) =
      queueOf s.machine.threads (entryAddress base pid))
    (table : ∀ pid, IsPid pid → (t.table pid).state = .zombie → (s.table pid).state = .zombie)
    (holder : ∀ cpu pid, s.holder = some (cpu, .zombied pid) → t.holder = some (cpu, .zombied pid)) :
    Awake base t := by
  intro pid isPid zombie nobody
  rw [queue pid isPid]
  exact awake pid isPid (table pid isPid zombie) fun cpu held => nobody cpu (holder cpu pid held)

/-- **Every step** keeps it so. -/
theorem step (fits : Fits base) (awake : Awake base s) (owned : Owned s) (joiners : Joiners cpus s)
    {a : Act} {t : State} (taken : Wakeup.step base cpus s a = some t) : Awake base t := by
  have reached := joiners.machine
  cases a with
  | other a =>
      simp only [Wakeup.step] at taken
      split at taken
      · rename_i alone
        obtain ⟨m, moved, rfl⟩ := Option.map_eq_some_iff.1 taken
        refine awake.keeps ?_ (fun _ _ zombie => zombie) fun _ _ held => held
        intro pid isPid
        show queueOf m.threads _ = _
        rw [queueOf_step reached moved]
        apply Queues.after_other
        intro names
        simp [State.leavesAlone, names, isEntry_entryAddress isPid] at alone
      · cases taken
  | spawnAlloc cpu =>
      simp only [Wakeup.step] at taken
      split at taken
      · split at taken
        · rename_i pid table ran
          have zombies : ∀ q, (table q).state = .zombie → (s.table q).state = .zombie :=
            fun q => allocProcessId_zombie ran
          split at taken
          · cases taken
            exact awake.keeps (fun _ _ => rfl) (fun q _ => zombies q) fun _ _ held => held
          · split at taken
            · cases taken
              exact awake.keeps (fun _ _ => rfl) (fun q _ => zombies q) fun _ _ held => held
            · cases taken
        · cases taken
      · cases taken
  | spawnFill cpu executable =>
      simp only [Wakeup.step] at taken
      split at taken
      · rename_i pid place
        cases taken
        refine awake.keeps (fun _ _ => rfl) ?_ fun _ _ held => held
        intro q _ zombie
        simp only [State.setPlace, Proc.spawnFill] at zombie
        by_cases same : q = pid
        · rw [same, Function.update_self] at zombie
          exact same ▸ zombie
        · rwa [Function.update_of_ne same] at zombie
      · cases taken
  | start cpu pid =>
      simp only [Wakeup.step] at taken
      split at taken
      · cases taken
        exact awake
      · cases taken
  | joinAsk cpu pid =>
      simp only [Wakeup.step] at taken
      split at taken
      · split at taken
        · cases taken
          exact awake
        · cases taken
          exact awake
      · cases taken
  | joinLock cpu =>
      simp only [Wakeup.step] at taken
      split at taken
      · rename_i ready
        have none : ∀ c pid, s.holder ≠ some (c, .zombied pid) := by
          rw [ready.2]
          simp
        split at taken
        · cases taken
          exact awake.keeps (fun _ _ => rfl) (fun _ _ zombie => zombie)
            fun c pid held => absurd held (none c pid)
        · cases taken
          exact awake.keeps (fun _ _ => rfl) (fun _ _ zombie => zombie)
            fun c pid held => absurd held (none c pid)
        · cases taken
      · cases taken
  | joinQueue cpu =>
      simp only [Wakeup.step] at taken
      split at taken
      · rename_i c pid held
        split at taken
        · rename_i ready
          obtain ⟨rfl, running⟩ := ready
          obtain ⟨m, moved, rfl⟩ := Option.map_eq_some_iff.1 taken
          have inside := (joiners.joiner c _ pid held rfl).2
          obtain ⟨-, -, valid⟩ := joiners.alive _ pid (by rw [inside]; rfl)
          intro q isPid zombie _
          have other : q ≠ pid := by
            rintro rfl
            exact running zombie
          have apart : entryAddress base q ≠ entryAddress base pid := fun same =>
            other (entryAddress_injective fits isPid valid same)
          show queueOf m.threads _ = []
          rw [queueOf_step reached moved, Queues.after, Function.update_of_ne apart]
          exact awake q isPid zombie (by rw [held]; simp)
        · cases taken
      · cases taken
  | joinLeave cpu =>
      simp only [Wakeup.step] at taken
      split at taken
      · rename_i c pid held
        split at taken
        · cases taken
          exact awake.keeps (fun _ _ => rfl) (fun _ _ zombie => zombie) (by rw [held]; simp)
        · cases taken
      · cases taken
  | joinCollect cpu =>
      simp only [Wakeup.step] at taken
      split at taken
      · rename_i c pid held
        split at taken
        · cases taken
          refine awake.keeps (fun _ _ => rfl) ?_ (by rw [held]; simp)
          intro q _ zombie
          simp only [State.setPlace, processReset] at zombie
          by_cases same : q = pid
          · rw [same, Function.update_self] at zombie
            cases zombie
          · rwa [Function.update_of_ne same] at zombie
        · cases taken
      · cases taken
  | finishLock cpu retval =>
      simp only [Wakeup.step] at taken
      split at taken
      · rename_i ready
        cases taken
        intro q isPid zombie nobody
        have other : q ≠ s.processId (s.current cpu) := by
          rintro rfl
          exact nobody cpu rfl
        simp only [State.setPlace, processFinish, Function.update_of_ne other] at zombie
        exact awake q isPid zombie (by rw [ready.2.1]; simp)
      · cases taken
  | finishWake cpu =>
      simp only [Wakeup.step] at taken
      split at taken
      · rename_i c pid held
        split at taken
        · obtain ⟨m, moved, rfl⟩ := Option.map_eq_some_iff.1 taken
          have isPid := owned.zombied c pid held
          intro q valid zombie _
          show queueOf m.threads _ = []
          rw [queueOf_step reached moved, Queues.after]
          by_cases same : q = pid
          · rw [same, Function.update_self]
          · have apart : entryAddress base q ≠ entryAddress base pid := fun eq =>
              same (entryAddress_injective fits valid isPid eq)
            rw [Function.update_of_ne apart]
            exact awake q valid zombie (by rw [held]; simpa using Ne.symm same)
        · cases taken
      · cases taken
  | finishDone cpu =>
      simp only [Wakeup.step] at taken
      split at taken
      · rename_i c pid held
        split at taken
        · cases taken
          exact awake.keeps (fun _ _ => rfl) (fun _ _ zombie => zombie) (by rw [held]; simp)
        · cases taken
      · cases taken

end Awake

theorem reachable_inv {base cpus : Nat} (fits : Fits base) {s : State}
    (reached : (system base cpus).Reachable s) : Joiners cpus s ∧ Owned s ∧ Awake base s := by
  induction reached with
  | start first =>
      cases first
      exact ⟨.start, .start, .start⟩
  | step _ _ taken ih =>
      obtain ⟨joiners, owned, awake⟩ := ih
      exact ⟨joiners.step taken, owned.step joiners taken, awake.step fits owned joiners taken⟩

/-- **No lost wake-up.**  In every interleaving of `process_join`, `process_finish` and all
else, on any number of CPUs: while the process table's spinlock is free nobody is queued or
asleep on an entry that is a zombie; what a `process_join` returned is what the
`process_finish` that made the entry a zombie had stored; and a joiner that must wait can
queue itself. -/
theorem join_never_misses (base : Nat) (fits : Fits base) (cpus : Nat) {s : State}
    (reached : (system base cpus).Reachable s) :
    s.machine.panicked = false ∧
    (s.holder = none → ∀ pid, IsPid pid → (s.table pid).state = .zombie →
      ∀ t, IsTid t → s.machine.threads.sleepsOn t ≠ entryAddress base pid) ∧
    (∀ r ∈ s.returned, r.value = r.stored) ∧
    (∀ cpu pid, s.holder = some (cpu, .testing pid) → (s.table pid).state ≠ .zombie →
      ∃ t, (system base cpus).step s (.joinQueue cpu) = some t) := by
  obtain ⟨joiners, owned, awake⟩ := reachable_inv fits reached
  refine ⟨(placed_reachable joiners.machine).1, ?_, owned.logged, ?_⟩
  · intro free pid isPid zombie t tid waits
    have empty := awake pid isPid zombie (by rw [free]; simp)
    have mem : t ∈ queueOf s.machine.threads (entryAddress base pid) :=
      (mem_queueOf joiners.machine).2 ⟨tid, waits, entryAddress_ne_zero fits isPid⟩
    rw [empty] at mem
    exact List.not_mem_nil mem
  · intro cpu pid held running
    obtain ⟨on, inside⟩ := joiners.joiner cpu _ pid held rfl
    obtain ⟨-, -, valid⟩ := joiners.alive _ pid (by rw [inside]; rfl)
    obtain ⟨m, taken⟩ := step_taken joiners.machine (a := .sleepqAdd cpu (entryAddress base pid)) (by
      simp only [Machine.allows, Bool.and_eq_true, decide_eq_true_eq]
      exact ⟨⟨on, joiners.tests cpu pid held⟩, entryAddress_ne_zero fits valid⟩)
    exact ⟨{ s with machine := m, holder := some (cpu, .queued pid) }, by
      simp [system, Wakeup.step, held, running, taken]⟩

/-- A thread spawns a process, waits for it, and gets the value that it exits with. -/
theorem join_never_misses_exit :
    ∃ s, (system 1000 1).exec boot
        [.other .create, .other (.init 1), .other (.addReady 1), .other (.schedule 0),
          .spawnAlloc 0, .spawnFill 0 [], .other .create, .other (.init 2), .other (.addReady 2),
          .joinAsk 0 0, .joinLock 0, .joinQueue 0, .joinLeave 0, .other (.schedule 0),
          .start 0 0, .finishLock 0 7, .finishWake 0, .finishDone 0, .other (.schedule 0),
          .joinLock 0, .joinCollect 0] = some s ∧
      s.returned = [⟨7, 7⟩] ∧ s.machine.panicked = false := by
  have ran : ((system 1000 1).exec boot
        [.other .create, .other (.init 1), .other (.addReady 1), .other (.schedule 0),
          .spawnAlloc 0, .spawnFill 0 [], .other .create, .other (.init 2), .other (.addReady 2),
          .joinAsk 0 0, .joinLock 0, .joinQueue 0, .joinLeave 0, .other (.schedule 0),
          .start 0 0, .finishLock 0 7, .finishWake 0, .finishDone 0, .other (.schedule 0),
          .joinLock 0, .joinCollect 0]).any
      (fun s => s.returned = [⟨7, 7⟩]) = true := by decide +kernel
  obtain ⟨s, reached, returned⟩ := (Option.any_eq_true _ _).1 ran
  exact ⟨s, reached, of_decide_eq_true returned,
    (join_never_misses 1000 (by decide) 1 ((System.Reachable.start rfl).exec reached)).1⟩

end Buenos.Proc.Wakeup
