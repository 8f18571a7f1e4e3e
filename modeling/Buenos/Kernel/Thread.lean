/-
# Kernel.Thread -- the thread table, the scheduler and the sleep queue

kernel/thread.c, kernel/scheduler.c and kernel/sleepq.c.  The thread table is kept
column by column; of its columns the ones that these modules use are here.  A `TID_t`
is an `int`, and one `next` column threads both the ready list and the chains of the
sleep queue's hash table.

Each definition is one critical section, with interrupts disabled and its spinlocks
held, so on any number of CPUs the sections take effect one at a time.  The time slice
that `scheduler_schedule` asks the timer for decides only when the next interrupt comes.
A walk along the links that is not over after `CONFIG_MAX_THREADS` members has met a
member twice and never ends.
-/
import Buenos.Lib.Bitmap
import Buenos.Theory.Linked
import Buenos.Theory.Prog
import Buenos.Theory.Run

namespace Buenos.Kernel

open Buenos.Lib Buenos.Theory

set_option autoImplicit false

def IDLE_THREAD_TID : Int := 0
def CONFIG_MAX_THREADS : Nat := 32
def SLEEPQ_HASHTABLE_SIZE : Nat := 127

inductive ThreadState where
  | free
  | running
  | ready
  | sleeping
  | nonready
  | dying
  deriving DecidableEq, Repr

structure Threads where
  state : Int → ThreadState
  sleepsOn : Int → Word
  next : Int → Int
  schedulerCurrentThread : Nat → Int
  head : Int
  tail : Int
  sleepqHashtable : Nat → Int
  nextTid : Nat

namespace Threads

def setState (s : Threads) (t : Int) (state : ThreadState) : Threads :=
  { s with state := Function.update s.state t state }

def setSleepsOn (s : Threads) (t : Int) (resource : Word) : Threads :=
  { s with sleepsOn := Function.update s.sleepsOn t resource }

def setNext (s : Threads) (t link : Int) : Threads :=
  { s with next := Function.update s.next t link }

def setSlot (s : Threads) (hash : Nat) (t : Int) : Threads :=
  { s with sleepqHashtable := Function.update s.sleepqHashtable hash t }

end Threads

/-- `thread_table_init`, `scheduler_init` and `sleepq_init`. -/
def threadTableInit : Threads where
  state := fun t => if t = IDLE_THREAD_TID then .ready else .free
  sleepsOn := fun _ => 0
  next := fun _ => -1
  schedulerCurrentThread := fun _ => 0
  head := -1
  tail := -1
  sleepqHashtable := fun _ => -1
  nextTid := 0

/-! ## The scheduler -/

def schedulerAddToReadyList (t : Int) : Prog Threads Unit := do
  Prog.assert (fun _ => t ≠ IDLE_THREAD_TID) .assertion
  Prog.assert (fun _ => 0 ≤ t && t < CONFIG_MAX_THREADS) .assertion
  Prog.modify fun s =>
    if s.tail < 0 then { s.setNext t (-1) with head := t, tail := t }
    else { (s.setNext s.tail t).setNext t (-1) with tail := t }

def schedulerRemoveFirstReady : Prog Threads Int := do
  let t ← Prog.gets fun s => s.head
  Prog.assert (fun _ => t ≠ IDLE_THREAD_TID) .assertion
  if 0 ≤ t then do
    Prog.assert (fun s => s.state t = .ready) .assertion
    Prog.modify fun s =>
      { s with tail := if s.tail = t then -1 else s.tail, head := s.next s.head }
    pure t
  else pure IDLE_THREAD_TID

def schedulerAddReady (t : Int) : Prog Threads Unit := do
  schedulerAddToReadyList t
  Prog.modify fun s => s.setState t .ready

/-- What becomes of the thread that the CPU was running. -/
def schedulePrevious (t : Int) : Prog Threads Unit := fun s =>
  if s.state t = .dying then .returned ((), s.setState t .free)
  else if s.sleepsOn t ≠ 0 then .returned ((), s.setState t .sleeping)
  else if t ≠ IDLE_THREAD_TID then schedulerAddReady t s
  else .returned ((), s.setState t .ready)

def schedulerSchedule (cpu : Nat) : Prog Threads Unit := do
  let previous ← Prog.gets fun s => s.schedulerCurrentThread cpu
  schedulePrevious previous
  let t ← schedulerRemoveFirstReady
  Prog.modify fun s => s.setState t .running
  Prog.modify fun s =>
    { s with schedulerCurrentThread := Function.update s.schedulerCurrentThread cpu t }

/-! ## Threads -/

/-- The first free row from `next_tid` on, going round the table. -/
def freeTid (s : Threads) : Option Nat :=
  ((List.range CONFIG_MAX_THREADS).map fun i => (i + s.nextTid) % CONFIG_MAX_THREADS).find?
    fun t => (t : Int) ≠ IDLE_THREAD_TID && s.state t = .free

/-- The critical section of `thread_create`. -/
def threadCreate : Prog Threads Int := do
  let found ← Prog.gets freeTid
  match found with
  | none => pure (-1)
  | some tid => do
      Prog.modify fun s =>
        { s.setState tid .nonready with nextTid := (tid + 1) % CONFIG_MAX_THREADS }
      pure tid

/-- What `thread_create` writes to the new row after its critical section. -/
def threadInit (tid : Int) : Prog Threads Unit :=
  Prog.modify fun s => (s.setSleepsOn tid 0).setNext tid (-1)

def threadRun (t : Int) : Prog Threads Unit := schedulerAddReady t

def threadFinish (cpu : Nat) : Prog Threads Unit := do
  let tid ← Prog.gets fun s => s.schedulerCurrentThread cpu
  Prog.modify fun s => s.setState tid .dying

/-! ## The sleep queue -/

def sleepqHash (resource : Word) : Nat := resource.toNat % SLEEPQ_HASHTABLE_SIZE

/-- The current thread of `cpu` queues itself. -/
def sleepqAdd (cpu : Nat) (resource : Word) : Prog Threads Unit := do
  let tid ← Prog.gets fun s => s.schedulerCurrentThread cpu
  Prog.modify fun s => (s.setNext tid (-1)).setSleepsOn tid resource
  Prog.assert (fun _ => tid ≠ IDLE_THREAD_TID) .assertion
  let first ← Prog.gets fun s => s.sleepqHashtable (sleepqHash resource)
  if first ≤ 0 then Prog.modify fun s => s.setSlot (sleepqHash resource) tid
  else do
    let found ← Prog.gets fun s =>
      search s.next (fun _ => false) CONFIG_MAX_THREADS first (s.next first)
    match found with
    | none => Prog.stop .forever
    | some (last, _) => Prog.modify fun s => s.setNext last tid

/-- Take `first` out of its chain, `prev` being the member before it, and make it ready
if it sleeps. -/
def wakeThread (hash : Nat) (prev first : Int) : Prog Threads Unit := do
  Prog.modify fun s =>
    if prev ≤ 0 then s.setSlot hash (s.next first) else s.setNext prev (s.next first)
  Prog.modify fun s => (s.setSleepsOn first 0).setNext first (-1)
  let state ← Prog.gets fun s => s.state first
  if state = .sleeping then do
    Prog.modify fun s => s.setState first .ready
    schedulerAddToReadyList first
  else pure ()

/-- The walk to the next thread that waits for `resource`. -/
def findWaiter (resource : Word) (prev first : Int) (s : Threads) : Option (Int × Int) :=
  search s.next (fun t => s.sleepsOn t = resource) CONFIG_MAX_THREADS prev first

def sleepqWake (resource : Word) : Prog Threads Unit := do
  let found ← Prog.gets fun s =>
    findWaiter resource (-1) (s.sleepqHashtable (sleepqHash resource)) s
  match found with
  | none => Prog.stop .forever
  | some (prev, first) =>
      if 0 < first then wakeThread (sleepqHash resource) prev first else pure ()

/-- The loop of `sleepq_wake_all`, with the number of rounds left. -/
def wakeAllFrom (resource : Word) : Nat → Int → Int → Prog Threads Unit
  | 0, _, _ => Prog.stop .forever
  | n + 1, prev, first =>
      if 0 < first then do
        let found ← Prog.gets (findWaiter resource prev first)
        match found with
        | none => Prog.stop .forever
        | some (prev, wake) =>
            if 0 < wake then do
              let following ← Prog.gets fun s => s.next wake
              wakeThread (sleepqHash resource) prev wake
              wakeAllFrom resource n prev following
            else pure ()
      else pure ()

def sleepqWakeAll (resource : Word) : Prog Threads Unit := do
  let first ← Prog.gets fun s => s.sleepqHashtable (sleepqHash resource)
  wakeAllFrom resource CONFIG_MAX_THREADS (-1) first

/-! ## Runs -/

/-- How far a created thread is on its way to the ready list. -/
inductive Birth where
  | none
  | reserved
  | initialised
  deriving DecidableEq, Repr

/-- The table with what the callers of `thread_create` still have to do.  A panicked
machine has failed an assertion, or spins in a loop. -/
structure Machine where
  threads : Threads
  birth : Int → Birth
  panicked : Bool

inductive Action where
  | schedule (cpu : Nat)
  | create
  | init (t : Int)
  | addReady (t : Int)
  | finish (cpu : Nat)
  | sleepqAdd (cpu : Nat) (resource : Word)
  | wake (resource : Word)
  | wakeAll (resource : Word)
  deriving DecidableEq, Repr

/-- The current thread of a CPU can act: it is not the idle thread, not finished and not
queued. -/
def Threads.acts (s : Threads) (cpu : Nat) : Bool :=
  s.schedulerCurrentThread cpu ≠ IDLE_THREAD_TID &&
    s.state (s.schedulerCurrentThread cpu) = .running &&
      s.sleepsOn (s.schedulerCurrentThread cpu) = 0

/-- What the callers promise: a created thread is made ready once, a queued or finished
thread does nothing but switch, and no thread queues itself on NULL.  A wake can come
from a thread or from an interrupt handler, so it is not tied to a CPU. -/
def Machine.allows (cpus : Nat) (s : Machine) : Action → Bool
  | .schedule cpu => cpu < cpus
  | .create => true
  | .init t => s.birth t = .reserved
  | .addReady t => s.birth t = .initialised
  | .finish cpu => cpu < cpus && s.threads.acts cpu
  | .sleepqAdd cpu resource => cpu < cpus && s.threads.acts cpu && resource ≠ 0
  | .wake _ => true
  | .wakeAll _ => true

/-- The critical section of an action; only `thread_create` has a result. -/
def Action.run : Action → Prog Threads Int
  | .schedule cpu => do schedulerSchedule cpu; pure 0
  | .create => threadCreate
  | .init t => do threadInit t; pure 0
  | .addReady t => do threadRun t; pure 0
  | .finish cpu => do threadFinish cpu; pure 0
  | .sleepqAdd cpu resource => do Kernel.sleepqAdd cpu resource; pure 0
  | .wake resource => do sleepqWake resource; pure 0
  | .wakeAll resource => do sleepqWakeAll resource; pure 0

/-- The bookkeeping of births. -/
def birthAfter (birth : Int → Birth) (result : Int) : Action → Int → Birth
  | .create => if 0 ≤ result then Function.update birth result .reserved else birth
  | .init t => Function.update birth t .initialised
  | .addReady t => Function.update birth t .none
  | _ => birth

def Machine.boot : Machine where
  threads := threadTableInit
  birth := fun _ => .none
  panicked := false

/-- All interleavings of the critical sections on `cpus` CPUs. -/
def threadSystem (cpus : Nat) : System Machine Action where
  initial s := s = Machine.boot
  step s a :=
    if s.panicked || !s.allows cpus a then none
    else match a.run s.threads with
      | .returned (result, t) =>
          some { threads := t, birth := birthAfter s.birth result a, panicked := false }
      | .stopped _ => some { s with panicked := true }

end Buenos.Kernel
