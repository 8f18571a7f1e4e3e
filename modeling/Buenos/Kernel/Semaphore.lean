/-
# Kernel.Semaphore -- counting semaphores under every interleaving

kernel/semaphore.c, one semaphore at address `sem` among everything else that the
threads do.  `semaphore_P` and `semaphore_V` are cut where another CPU can come in
between: the semaphore's own spinlock is taken and the value changed, the sleep queue is
called, the spinlock is released, and in `semaphore_P` the thread is switched out and
later comes back.  Interrupts are off in a section, so its CPU does nothing else.

The ghost fields count the calls, and log the threads that found no value left and the
threads that a `semaphore_V` released.  `semaphore_counts` is the claim of the module:
the value is what the counts say, the queue is as long as the value is negative, and the
released threads are a prefix of the queued ones.
-/
import Buenos.Kernel.SleepQueue
import Buenos.Lib.Libc

namespace Buenos.Kernel

open Buenos.Lib Buenos.Theory

set_option autoImplicit false

/-- How far the CPU that holds the semaphore's spinlock has got. -/
inductive Section where
  | lowered
  | queued
  | raised
  | woken
  deriving DecidableEq, Repr

/-- A thread that queued itself in `semaphore_P`: it has yet to switch, or was switched
out. -/
inductive Wait where
  | none
  | leaving
  | left
  deriving DecidableEq, Repr

structure SemaphoreRun where
  machine : Machine
  value : Int
  holder : Option (Nat × Section)
  wait : Int → Wait
  downs : Nat
  ups : Nat
  passed : Nat
  queuedLog : List Int
  releasedLog : List Int

inductive SemaphoreAction where
  | other (a : Action)
  | down (cpu : Nat)
  | downQueue (cpu : Nat)
  | downLeave (cpu : Nat)
  | downPass (cpu : Nat)
  | resume (cpu : Nat)
  | up (cpu : Nat)
  | upWake (cpu : Nat)
  | upDone (cpu : Nat)

def INT_MAX : Int := 2147483647

namespace SemaphoreRun

/-- The current thread of a CPU. -/
def current (s : SemaphoreRun) (cpu : Nat) : Int := s.machine.threads.schedulerCurrentThread cpu

/-- What the rest of the kernel can do: nothing about this semaphore, nothing on a CPU that
is in a section, and nothing but switch in a thread that waits in `semaphore_P`. -/
def leavesAlone (sem : Word) (s : SemaphoreRun) (a : Action) : Bool :=
  a.resource ≠ some sem && match a.cpu with
    | none => true
    | some cpu => s.holder.map Prod.fst ≠ some cpu &&
        (a = .schedule cpu || s.wait (s.current cpu) = .none)

/-- A switch takes a thread that has queued itself off its CPU. -/
def waitAfter (s : SemaphoreRun) : Action → Int → Wait
  | .schedule cpu =>
      if s.wait (s.current cpu) = .leaving then Function.update s.wait (s.current cpu) .left
      else s.wait
  | _ => s.wait

/-- The rows of the thread table. -/
def rows : List Int := (List.range CONFIG_MAX_THREADS).map Int.ofNat

/-- The threads that were queued on `sem` and are not any more. -/
def releasedBetween (sem : Word) (before after : Threads) : List Int :=
  rows.filter fun t => before.sleepsOn t = sem ∧ after.sleepsOn t ≠ sem

end SemaphoreRun

open SemaphoreRun in
/-- One step.  `semaphore_V` on the largest value overflows, which has no meaning. -/
def semaphoreStep (cpus : Nat) (sem : Word) (s : SemaphoreRun) :
    SemaphoreAction → Option SemaphoreRun
  | .other a =>
      if s.leavesAlone sem a then
        ((threadSystem cpus).step s.machine a).map fun m =>
          { s with machine := m, wait := s.waitAfter a }
      else none
  | .down cpu =>
      if s.holder = none ∧ cpu < cpus ∧ s.machine.threads.acts cpu = true ∧
          s.wait (s.current cpu) = .none then
        some { s with
          value := s.value - 1
          holder := some (cpu, .lowered)
          downs := s.downs + 1
          queuedLog := if s.value - 1 < 0 then s.queuedLog ++ [s.current cpu] else s.queuedLog }
      else none
  | .downQueue cpu =>
      if s.holder = some (cpu, .lowered) ∧ s.value < 0 then
        ((threadSystem cpus).step s.machine (.sleepqAdd cpu sem)).map fun m =>
          { s with machine := m, holder := some (cpu, .queued) }
      else none
  | .downLeave cpu =>
      if s.holder = some (cpu, .queued) then
        some { s with
          holder := none
          wait := Function.update s.wait (s.current cpu) .leaving }
      else none
  | .downPass cpu =>
      if s.holder = some (cpu, .lowered) ∧ 0 ≤ s.value then
        some { s with holder := none, passed := s.passed + 1 }
      else none
  | .resume cpu =>
      if cpu < cpus ∧ s.wait (s.current cpu) = .left then
        some { s with
          wait := Function.update s.wait (s.current cpu) .none
          passed := s.passed + 1 }
      else none
  | .up cpu =>
      if s.holder = none ∧ cpu < cpus ∧ s.value < INT_MAX then
        some { s with value := s.value + 1, holder := some (cpu, .raised), ups := s.ups + 1 }
      else none
  | .upWake cpu =>
      if s.holder = some (cpu, .raised) ∧ s.value ≤ 0 then
        ((threadSystem cpus).step s.machine (.wake sem)).map fun m =>
          { s with
            machine := m
            holder := some (cpu, .woken)
            releasedLog := s.releasedLog ++ releasedBetween sem s.machine.threads m.threads }
      else none
  | .upDone cpu =>
      if s.holder = some (cpu, .woken) ∨ (s.holder = some (cpu, .raised) ∧ 0 < s.value) then
        some { s with holder := none }
      else none

/-- A semaphore that was just created with value `v`. -/
def SemaphoreRun.created (m : Machine) (v : Nat) : SemaphoreRun where
  machine := m
  value := v
  holder := none
  wait := fun _ => .none
  downs := 0
  ups := 0
  passed := 0
  queuedLog := []
  releasedLog := []

/-- A semaphore created with value `v` in a running kernel. -/
def semaphoreSystem (cpus : Nat) (sem : Word) (v : Nat) : System SemaphoreRun SemaphoreAction where
  initial s := ∃ m, (threadSystem cpus).Reachable m ∧ queueOf m.threads sem = [] ∧
    s = SemaphoreRun.created m v
  step := semaphoreStep cpus sem

theorem mem_rows {t : Int} : t ∈ SemaphoreRun.rows ↔ t = 0 ∨ IsTid t := by
  unfold SemaphoreRun.rows IsTid CONFIG_MAX_THREADS
  rw [List.mem_map]
  constructor
  · rintro ⟨n, below, rfl⟩
    have := List.mem_range.1 below
    simp only [Int.ofNat_eq_natCast]
    omega
  · intro row
    refine ⟨t.toNat, List.mem_range.2 ?_, Int.toNat_of_nonneg ?_⟩
    all_goals omega

def waitingIn (wait : Int → Wait) : Finset Int :=
  SemaphoreRun.rows.toFinset.filter fun t => 0 < t ∧ wait t ≠ .none

theorem mem_waitingIn {wait : Int → Wait} {t : Int} :
    t ∈ waitingIn wait ↔ IsTid t ∧ wait t ≠ .none := by
  rw [waitingIn, Finset.mem_filter, List.mem_toFinset, mem_rows, ← and_assoc]
  refine and_congr_left fun _ => ⟨?_, fun tid => ⟨.inr tid, tid.1⟩⟩
  rintro ⟨rfl | tid, positive⟩
  · omega
  · exact tid

theorem card_waitingIn_enter (wait : Int → Wait) {t : Int} (tid : IsTid t) (idle : wait t = .none)
    {w : Wait} (waits : w ≠ .none) :
    (waitingIn (Function.update wait t w)).card = (waitingIn wait).card + 1 := by
  have enters : waitingIn (Function.update wait t w) = insert t (waitingIn wait) := by
    ext x
    rw [Finset.mem_insert, mem_waitingIn, mem_waitingIn]
    by_cases same : x = t
    · subst same
      simp [tid, waits]
    · simp [same]
  rw [enters, Finset.card_insert_of_notMem]
  rw [mem_waitingIn]
  exact fun mem => mem.2 idle

theorem card_waitingIn_leave (wait : Int → Wait) {t : Int} (tid : IsTid t) (waits : wait t ≠ .none) :
    (waitingIn (Function.update wait t .none)).card + 1 = (waitingIn wait).card := by
  have back := card_waitingIn_enter (Function.update wait t .none) tid
    (Function.update_self _ _ _) waits
  rw [Function.update_idem, Function.update_eq_self] at back
  exact back.symm

namespace SemaphoreRun

/-- The value that the queue has caught up with. -/
def settled (s : SemaphoreRun) : Int :=
  match s.holder with
  | some (_, .lowered) => s.value + 1
  | some (_, .raised) => s.value - 1
  | _ => s.value

/-- The thread that is about to queue itself. -/
def pending (s : SemaphoreRun) : List Int :=
  match s.holder with
  | some (cpu, .lowered) => if s.value < 0 then [s.current cpu] else []
  | _ => []

/-- The CPU that is in a section of `semaphore_P`. -/
def lowering (s : SemaphoreRun) : Option Nat :=
  match s.holder with
  | some (cpu, .lowered) | some (cpu, .queued) => some cpu
  | _ => none

/-- The threads that wait in `semaphore_P`, released or not. -/
def waiting (s : SemaphoreRun) : Finset Int := waitingIn s.wait

/-- The threads queued on the semaphore. -/
def queue (sem : Word) (s : SemaphoreRun) : List Int := queueOf s.machine.threads sem

end SemaphoreRun

/-- What holds between any two steps. -/
structure Counted (cpus : Nat) (sem : Word) (v : Nat) (s : SemaphoreRun) : Prop where
  machine : (threadSystem cpus).Reachable s.machine
  value : s.value = v + s.ups - s.downs
  length : ((s.queue sem).length : Int) = max 0 (-s.settled)
  order : s.queuedLog = s.releasedLog ++ s.queue sem ++ s.pending
  tids : ∀ t, s.wait t ≠ .none → IsTid t
  inside : ∀ cpu, s.lowering = some cpu →
    cpu < cpus ∧ IsTid (s.current cpu) ∧ s.wait (s.current cpu) = .none
  acts : ∀ cpu, s.holder = some (cpu, .lowered) → s.machine.threads.acts cpu = true
  places : ∀ t ∈ s.queue sem,
    s.wait t ≠ .none ∨ ∃ cpu, s.holder = some (cpu, .queued) ∧ t = s.current cpu
  left : ∀ t, s.wait t = .left → s.machine.threads.sleepsOn t ≠ 0 →
    s.machine.threads.state t = .sleeping
  passed : s.passed + s.waiting.card + (if s.lowering.isSome then 1 else 0) = s.downs

namespace Counted

variable {cpus : Nat} {sem : Word} {v : Nat} {s : SemaphoreRun}

theorem start {m : Machine} (reached : (threadSystem cpus).Reachable m)
    (empty : queueOf m.threads sem = []) :
    Counted cpus sem v (.created m v) where
  machine := reached
  value := by simp [SemaphoreRun.created]
  length := by simp [SemaphoreRun.created, SemaphoreRun.queue, empty, SemaphoreRun.settled]
  order := by simp [SemaphoreRun.created, SemaphoreRun.queue, empty, SemaphoreRun.pending]
  tids := by simp [SemaphoreRun.created]
  inside := by simp [SemaphoreRun.created, SemaphoreRun.lowering]
  acts := by simp [SemaphoreRun.created]
  places := by simp [SemaphoreRun.created, SemaphoreRun.queue, empty]
  left := by simp [SemaphoreRun.created]
  passed := by simp [SemaphoreRun.created, SemaphoreRun.waiting, waitingIn,
    SemaphoreRun.lowering]

theorem waitAfter_none (s : SemaphoreRun) (a : Action) (t : Int) :
    s.waitAfter a t = .none ↔ s.wait t = .none := by
  cases a with
  | schedule cpu =>
      simp only [SemaphoreRun.waitAfter]
      by_cases leaves : s.wait (s.current cpu) = .leaving
      · rw [if_pos leaves]
        by_cases same : t = s.current cpu
        · rw [same, Function.update_self, leaves]
          simp
        · rw [Function.update_of_ne same]
      · rw [if_neg leaves]
  | create | init | addReady | finish | sleepqAdd | wake | wakeAll => rfl

/-- **The rest of the kernel** does not disturb the semaphore. -/
theorem other (counted : Counted cpus sem v s) {a : Action} {m : Machine}
    (alone : s.leavesAlone sem a = true)
    (taken : (threadSystem cpus).step s.machine a = some m) :
    Counted cpus sem v { s with machine := m, wait := s.waitAfter a } := by
  have reached := counted.machine
  simp only [SemaphoreRun.leavesAlone, Bool.and_eq_true, decide_eq_true_eq] at alone
  obtain ⟨foreign, apart⟩ := alone
  have elsewhere : ∀ cpu sec, s.holder = some (cpu, sec) → a.cpu ≠ some cpu := by
    intro cpu sec held same
    rw [same, held] at apart
    simp at apart
  have queue : queueOf m.threads sem = queueOf s.machine.threads sem := by
    rw [queueOf_step reached taken, Queues.after_other _ _ foreign]
  have current : ∀ cpu sec, s.holder = some (cpu, sec) →
      m.threads.schedulerCurrentThread cpu = s.machine.threads.schedulerCurrentThread cpu := by
    intro cpu sec held
    apply current_stays reached taken
    rintro rfl
    exact elsewhere cpu sec held rfl
  have inSection : ∀ cpu, s.lowering = some cpu → ∃ sec, s.holder = some (cpu, sec) := by
    intro cpu lowers
    unfold SemaphoreRun.lowering at lowers
    split at lowers
    · rename_i c held
      cases lowers
      exact ⟨_, held⟩
    · rename_i c held
      cases lowers
      exact ⟨_, held⟩
    · cases lowers
  exact
    { machine := reached.next taken
      value := counted.value
      length := by
        show ((queueOf m.threads sem).length : Int) = _
        rw [queue]
        exact counted.length
      order := by
        have pending : SemaphoreRun.pending { s with machine := m, wait := s.waitAfter a } =
            s.pending := by
          unfold SemaphoreRun.pending
          dsimp only
          split
          · rename_i cpu held
            rw [SemaphoreRun.current, SemaphoreRun.current, current cpu _ held]
          · rfl
        show s.queuedLog = s.releasedLog ++ queueOf m.threads sem ++ _
        rw [pending, queue]
        exact counted.order
      tids := fun t waits => counted.tids t fun idle => waits ((waitAfter_none s a t).2 idle)
      inside := by
        intro cpu lowers
        obtain ⟨on, tid, idle⟩ := counted.inside cpu lowers
        obtain ⟨sec, held⟩ := inSection cpu lowers
        show _ ∧ IsTid (m.threads.schedulerCurrentThread cpu) ∧
          s.waitAfter a (m.threads.schedulerCurrentThread cpu) = .none
        rw [current cpu sec held]
        exact ⟨on, tid, (waitAfter_none s a _).2 idle⟩
      acts := by
        intro cpu held
        exact (acts_stays reached taken (counted.inside cpu (by
          show s.lowering = some cpu
          rw [SemaphoreRun.lowering, show s.holder = some (cpu, .lowered) from held])).1
            (counted.acts cpu held) (elsewhere cpu _ held)).1
      places := by
        intro t mem
        have mem' : t ∈ s.queue sem := by
          rw [SemaphoreRun.queue, ← queue]
          exact mem
        rcases counted.places t mem' with waits | ⟨cpu, held, same⟩
        · exact .inl fun idle => waits ((waitAfter_none s a t).1 idle)
        · exact .inr ⟨cpu, held, same.trans (current cpu _ held).symm⟩
      left := by
        intro t left waits
        have queued := waits_of_queued reached taken waits
        by_cases before : s.wait t = .left
        · have tid := counted.tids t (by rw [before]; decide)
          have asleep : s.machine.threads.sleepsOn t ≠ 0 := by
            cases a with
            | sleepqAdd cpu resource =>
                have ne : t ≠ s.machine.threads.schedulerCurrentThread cpu := by
                  rintro rfl
                  simp [Action.cpu, SemaphoreRun.current, before] at apart
                rw [Action.waits, Function.update_of_ne ne] at queued
                rw [← queued]
                exact waits
            | schedule | create | init | addReady | finish | wake | wakeAll =>
                rw [show s.machine.threads.sleepsOn t = m.threads.sleepsOn t from queued.symm]
                exact waits
          exact sleeping_stays reached taken tid (counted.left t before asleep) waits
        · cases a with
          | schedule cpu =>
              simp only [SemaphoreRun.waitAfter] at left
              by_cases leaves : s.wait (s.current cpu) = .leaving
              · rw [if_pos leaves] at left
                by_cases same : t = s.current cpu
                · have tid := counted.tids t (by rw [same, leaves]; decide)
                  subst same
                  exact switched_sleeps reached taken tid waits
                · rw [Function.update_of_ne same] at left
                  exact absurd left before
              · rw [if_neg leaves] at left
                exact absurd left before
          | create | init | addReady | finish | sleepqAdd | wake | wakeAll =>
              exact absurd left before
      passed := by
        have same : SemaphoreRun.waiting { s with machine := m, wait := s.waitAfter a } =
            s.waiting := by
          ext t
          rw [SemaphoreRun.waiting, SemaphoreRun.waiting, mem_waitingIn, mem_waitingIn]
          exact and_congr_right fun _ => not_congr (waitAfter_none s a t)
        rw [same]
        exact counted.passed }

/-! ### `semaphore_P` -/

theorem down (counted : Counted cpus sem v s) {cpu : Nat} (free : s.holder = none)
    (on : cpu < cpus) (acts : s.machine.threads.acts cpu = true)
    (idle : s.wait (s.current cpu) = .none) :
    Counted cpus sem v { s with
      value := s.value - 1
      holder := some (cpu, .lowered)
      downs := s.downs + 1
      queuedLog := if s.value - 1 < 0 then s.queuedLog ++ [s.current cpu] else s.queuedLog } where
  machine := counted.machine
  value := by
    have value := counted.value
    push_cast
    omega
  length := by
    have length := counted.length
    simp only [SemaphoreRun.settled, free] at length
    simp only [SemaphoreRun.settled, Int.sub_add_cancel]
    exact length
  order := by
    have order := counted.order
    simp only [SemaphoreRun.pending, free, List.append_nil] at order
    simp only [SemaphoreRun.pending]
    split
    · rw [order]
      rfl
    · rw [order, List.append_nil]
      rfl
  tids := counted.tids
  inside := by
    intro c lowers
    simp only [SemaphoreRun.lowering, Option.some.injEq] at lowers
    subst lowers
    exact ⟨on, isTid_of_acts counted.machine on acts, idle⟩
  acts := by
    intro c held
    simp only [Option.some.injEq, Prod.mk.injEq, and_true] at held
    exact held ▸ acts
  places := by
    intro t mem
    rcases counted.places t mem with waits | ⟨c, held, -⟩
    · exact .inl waits
    · rw [free] at held
      cases held
  left := counted.left
  passed := by
    have passed := counted.passed
    simp only [SemaphoreRun.lowering, free, Option.isSome_none, Bool.false_eq_true, if_false,
      Nat.add_zero] at passed
    simp only [SemaphoreRun.lowering, Option.isSome_some, if_true]
    rw [← passed]
    rfl

theorem downQueue (counted : Counted cpus sem v s) {cpu : Nat} {m : Machine}
    (held : s.holder = some (cpu, .lowered)) (negative : s.value < 0)
    (taken : (threadSystem cpus).step s.machine (.sleepqAdd cpu sem) = some m) :
    Counted cpus sem v { s with machine := m, holder := some (cpu, .queued) } := by
  have reached := counted.machine
  have lowers : s.lowering = some cpu := by rw [SemaphoreRun.lowering, held]
  obtain ⟨on, tid, idle⟩ := counted.inside cpu lowers
  have current : m.threads.schedulerCurrentThread cpu = s.current cpu :=
    current_stays reached taken (by simp)
  have queue : queueOf m.threads sem = s.queue sem ++ [s.current cpu] := by
    rw [queueOf_step reached taken]
    exact Function.update_self _ _ _
  have length := counted.length
  simp only [SemaphoreRun.settled, held] at length
  exact
    { machine := reached.next taken
      value := counted.value
      length := by
        show ((queueOf m.threads sem).length : Int) = max 0 (-s.value)
        rw [queue, List.length_append, List.length_singleton]
        push_cast
        omega
      order := by
        have order := counted.order
        simp only [SemaphoreRun.pending, held, negative, if_true] at order
        show s.queuedLog = s.releasedLog ++ queueOf m.threads sem ++ []
        rw [order, queue, List.append_nil, List.append_assoc]
      tids := counted.tids
      inside := by
        intro c lowers'
        simp only [SemaphoreRun.lowering, Option.some.injEq] at lowers'
        subst lowers'
        show _ ∧ IsTid (m.threads.schedulerCurrentThread cpu) ∧
          s.wait (m.threads.schedulerCurrentThread cpu) = .none
        rw [current]
        exact ⟨on, tid, idle⟩
      acts := by simp
      places := by
        intro t mem
        have mem' : t ∈ s.queue sem ++ [s.current cpu] := queue ▸ mem
        rcases List.mem_append.1 mem' with old | new
        · rcases counted.places t old with waits | ⟨c, held', -⟩
          · exact .inl waits
          · rw [held] at held'
            cases held'
        · exact .inr ⟨cpu, rfl, (List.mem_singleton.1 new).trans current.symm⟩
      left := by
        intro t left waits
        have queued := waits_of_queued reached taken waits
        have ne : t ≠ s.machine.threads.schedulerCurrentThread cpu := by
          rintro rfl
          exact absurd (idle.symm.trans left) (by decide)
        rw [Action.waits, Function.update_of_ne ne] at queued
        exact sleeping_stays reached taken (counted.tids t (by rw [left]; decide))
          (counted.left t left (queued ▸ waits)) waits
      passed := by
        have passed := counted.passed
        rw [lowers] at passed
        exact passed }

theorem downLeave (counted : Counted cpus sem v s) {cpu : Nat}
    (held : s.holder = some (cpu, .queued)) :
    Counted cpus sem v { s with
      holder := none
      wait := Function.update s.wait (s.current cpu) .leaving } := by
  have lowers : s.lowering = some cpu := by rw [SemaphoreRun.lowering, held]
  obtain ⟨on, tid, idle⟩ := counted.inside cpu lowers
  exact
    { machine := counted.machine
      value := counted.value
      length := by
        have length := counted.length
        simp only [SemaphoreRun.settled, held] at length
        exact length
      order := by
        have order := counted.order
        simp only [SemaphoreRun.pending, held] at order
        exact order
      tids := by
        intro t waits
        by_cases same : t = s.current cpu
        · exact same ▸ tid
        · exact counted.tids t (by simpa [same] using waits)
      inside := by simp [SemaphoreRun.lowering]
      acts := by simp
      places := by
        intro t mem
        left
        by_cases same : t = s.current cpu
        · simp [same]
        · rcases counted.places t mem with waits | ⟨c, held', eq⟩
          · simpa [same] using waits
          · rw [held] at held'
            cases held'
            exact absurd eq same
      left := by
        intro t left
        by_cases same : t = s.current cpu
        · simp [same] at left
        · exact counted.left t (by simpa [same] using left)
      passed := by
        have passed := counted.passed
        rw [lowers] at passed
        show s.passed + (waitingIn (Function.update s.wait (s.current cpu) .leaving)).card + 0 = _
        rw [card_waitingIn_enter s.wait tid idle (by decide)]
        exact passed }

theorem downPass (counted : Counted cpus sem v s) {cpu : Nat}
    (held : s.holder = some (cpu, .lowered)) (enough : 0 ≤ s.value) :
    Counted cpus sem v { s with holder := none, passed := s.passed + 1 } where
  machine := counted.machine
  value := counted.value
  length := by
    have length := counted.length
    simp only [SemaphoreRun.settled, held] at length
    show ((s.queue sem).length : Int) = max 0 (-s.value)
    omega
  order := by
    have order := counted.order
    simp only [SemaphoreRun.pending, held, show ¬ s.value < 0 by omega, if_false] at order
    exact order
  tids := counted.tids
  inside := by simp [SemaphoreRun.lowering]
  acts := by simp
  places := by
    intro t mem
    rcases counted.places t mem with waits | ⟨c, held', -⟩
    · exact .inl waits
    · rw [held] at held'
      cases held'
  left := counted.left
  passed := by
    have passed := counted.passed
    simp only [SemaphoreRun.lowering, held, Option.isSome_some, if_true] at passed
    show s.passed + 1 + s.waiting.card + 0 = s.downs
    omega

/-- A thread that comes back from its switch is not queued any more. -/
theorem resume (counted : Counted cpus sem v s) {cpu : Nat} (on : cpu < cpus)
    (left : s.wait (s.current cpu) = .left) :
    Counted cpus sem v { s with
      wait := Function.update s.wait (s.current cpu) .none
      passed := s.passed + 1 } := by
  have tid := counted.tids (s.current cpu) (by rw [left]; decide)
  have away : s.current cpu ∉ s.queue sem := by
    intro mem
    obtain ⟨-, waits, real⟩ := (mem_queueOf counted.machine).1 mem
    have asleep := counted.left _ left (by rw [waits]; exact real)
    obtain ⟨-, ready, chain, placed⟩ := placed_reachable counted.machine
    have busy : s.machine.threads.schedulerCurrentThread cpu ≠ 0 := by
      have := tid.1
      intro bad
      rw [SemaphoreRun.current, bad] at this
      omega
    obtain ⟨-, bad | bad⟩ := placed.current cpu on busy <;>
      rw [SemaphoreRun.current, bad] at asleep <;> cases asleep
  exact
    { machine := counted.machine
      value := counted.value
      length := counted.length
      order := counted.order
      tids := by
        intro t waits
        by_cases same : t = s.current cpu
        · exact same ▸ tid
        · exact counted.tids t (by simpa [same] using waits)
      inside := by
        intro c lowers
        obtain ⟨other, tid', idle⟩ := counted.inside c lowers
        refine ⟨other, tid', ?_⟩
        show Function.update s.wait (s.current cpu) .none (s.current c) = .none
        by_cases same : s.current c = s.current cpu
        · rw [same, Function.update_self]
        · rw [Function.update_of_ne same]
          exact idle
      acts := counted.acts
      places := by
        intro t mem
        have ne : t ≠ s.current cpu := by
          rintro rfl
          exact away mem
        rcases counted.places t mem with waits | queued
        · exact .inl (by simpa [ne] using waits)
        · exact .inr queued
      left := by
        intro t left'
        by_cases same : t = s.current cpu
        · simp [same] at left'
        · exact counted.left t (by simpa [same] using left')
      passed := by
        have passed := counted.passed
        have leaves := card_waitingIn_leave s.wait tid (by rw [left]; decide)
        rw [SemaphoreRun.waiting, ← leaves] at passed
        show s.passed + 1 + (waitingIn (Function.update s.wait (s.current cpu) .none)).card +
          (if s.lowering.isSome then 1 else 0) = s.downs
        omega }

/-! ### `semaphore_V` -/

theorem up (counted : Counted cpus sem v s) {cpu : Nat} (free : s.holder = none) :
    Counted cpus sem v { s with
      value := s.value + 1, holder := some (cpu, .raised), ups := s.ups + 1 } where
  machine := counted.machine
  value := by
    have value := counted.value
    push_cast
    omega
  length := by
    have length := counted.length
    simp only [SemaphoreRun.settled, free] at length
    simp only [SemaphoreRun.settled, Int.add_sub_cancel]
    exact length
  order := by
    have order := counted.order
    simp only [SemaphoreRun.pending, free] at order
    exact order
  tids := counted.tids
  inside := by simp [SemaphoreRun.lowering]
  acts := by simp
  places := by
    intro t mem
    rcases counted.places t mem with waits | ⟨c, held, -⟩
    · exact .inl waits
    · rw [free] at held
      cases held
  left := counted.left
  passed := by
    have passed := counted.passed
    simp only [SemaphoreRun.lowering, free] at passed
    exact passed

/-- A filter of the rows that only `w` passes. -/
theorem rows_filter {p : Int → Bool} {w : Int} (tid : IsTid w)
    (only : ∀ t ∈ SemaphoreRun.rows, (p t = true ↔ t = w)) :
    SemaphoreRun.rows.filter p = [w] := by
  have nodup : SemaphoreRun.rows.Nodup := by decide
  have same : SemaphoreRun.rows.filter p = SemaphoreRun.rows.filter fun t => t = w := by
    apply List.filter_congr
    intro t mem
    rw [Bool.eq_iff_iff, decide_eq_true_iff]
    exact only t mem
  rw [same, List.filter_eq, List.count_eq_one_of_mem nodup (mem_rows.2 (.inr tid))]
  rfl

/-- A `semaphore_V` that finds waiters releases the first one. -/
theorem wakes (counted : Counted cpus sem v s) {cpu : Nat} {m : Machine} (real : sem ≠ 0)
    (held : s.holder = some (cpu, .raised)) (few : s.value ≤ 0)
    (taken : (threadSystem cpus).step s.machine (.wake sem) = some m) :
    ∃ w, s.queue sem = w :: queueOf m.threads sem ∧ m.threads.sleepsOn w = 0 ∧
      SemaphoreRun.releasedBetween sem s.machine.threads m.threads = [w] := by
  have reached := counted.machine
  have length := counted.length
  simp only [SemaphoreRun.settled, held] at length
  cases queued : s.queue sem with
  | nil =>
      rw [queued, List.length_nil] at length
      omega
  | cons w rest =>
      have queue : queueOf m.threads sem = rest := by
        rw [queueOf_step reached taken, Queues.after, Function.update_self]
        exact congrArg List.tail queued
      have nodup : (w :: rest).Nodup := queued ▸ queueOf_nodup reached sem
      have members : ∀ t, t ∈ w :: rest ↔ IsTid t ∧ s.machine.threads.sleepsOn t = sem := by
        intro t
        rw [← queued, SemaphoreRun.queue, mem_queueOf reached]
        exact and_congr_right fun _ => and_iff_left real
      have after : ∀ t, t ∈ rest ↔ IsTid t ∧ m.threads.sleepsOn t = sem := by
        intro t
        rw [← queue, mem_queueOf (reached.next taken)]
        exact and_congr_right fun _ => and_iff_left real
      obtain ⟨tid, waits⟩ := (members w).1 List.mem_cons_self
      have off : m.threads.sleepsOn w ≠ sem := fun still =>
        (List.nodup_cons.1 nodup).1 ((after w).2 ⟨tid, still⟩)
      refine ⟨w, by rw [queue], ?_, ?_⟩
      · by_contra still
        have kept := waits_of_queued reached taken still
        exact off (kept.trans waits)
      · apply rows_filter tid
        intro t row
        rw [decide_eq_true_iff]
        constructor
        · rintro ⟨before, gone⟩
          have isTid : IsTid t := by
            apply (mem_rows.1 row).resolve_left
            rintro rfl
            obtain ⟨-, ready, chain, placed⟩ := placed_reachable reached
            exact real (before.symm.trans placed.idle.2)
          rcases List.mem_cons.1 ((members t).2 ⟨isTid, before⟩) with first | later
          · exact first
          · exact absurd ((after t).1 later).2 gone
        · rintro rfl
          exact ⟨waits, off⟩

theorem upWake (counted : Counted cpus sem v s) {cpu : Nat} {m : Machine} (real : sem ≠ 0)
    (held : s.holder = some (cpu, .raised)) (few : s.value ≤ 0)
    (taken : (threadSystem cpus).step s.machine (.wake sem) = some m) :
    Counted cpus sem v { s with
      machine := m
      holder := some (cpu, .woken)
      releasedLog := s.releasedLog ++
        SemaphoreRun.releasedBetween sem s.machine.threads m.threads } := by
  have reached := counted.machine
  obtain ⟨w, queue, -, released⟩ := counted.wakes real held few taken
  rw [released]
  have length := counted.length
  simp only [SemaphoreRun.settled, held, queue, List.length_cons] at length
  push_cast at length
  exact
    { machine := reached.next taken
      value := counted.value
      length := by
        show ((queueOf m.threads sem).length : Int) = max 0 (-s.value)
        omega
      order := by
        have order := counted.order
        simp only [SemaphoreRun.pending, held, queue] at order
        show s.queuedLog = s.releasedLog ++ [w] ++ queueOf m.threads sem ++ []
        rw [order]
        simp
      tids := counted.tids
      inside := by simp [SemaphoreRun.lowering]
      acts := by simp
      places := by
        intro t mem
        rcases counted.places t (queue ▸ List.mem_cons_of_mem _ mem) with waits | ⟨c, held', -⟩
        · exact .inl waits
        · rw [held] at held'
          cases held'
      left := by
        intro t left waits
        have queued : m.threads.sleepsOn t = s.machine.threads.sleepsOn t :=
          waits_of_queued reached taken waits
        exact sleeping_stays reached taken (counted.tids t (by rw [left]; decide))
          (counted.left t left (queued ▸ waits)) waits
      passed := by
        have passed := counted.passed
        simp only [SemaphoreRun.lowering, held] at passed
        exact passed }

theorem upDone (counted : Counted cpus sem v s) {cpu : Nat}
    (done : s.holder = some (cpu, .woken) ∨ (s.holder = some (cpu, .raised) ∧ 0 < s.value)) :
    Counted cpus sem v { s with holder := none } where
  machine := counted.machine
  value := counted.value
  length := by
    have length := counted.length
    show ((s.queue sem).length : Int) = max 0 (-s.value)
    rcases done with held | ⟨held, many⟩
    · simp only [SemaphoreRun.settled, held] at length
      exact length
    · simp only [SemaphoreRun.settled, held] at length
      omega
  order := by
    have order := counted.order
    rcases done with held | ⟨held, -⟩ <;>
      · simp only [SemaphoreRun.pending, held] at order
        exact order
  tids := counted.tids
  inside := by simp [SemaphoreRun.lowering]
  acts := by simp
  places := by
    intro t mem
    rcases counted.places t mem with waits | ⟨c, held', -⟩
    · exact .inl waits
    · rcases done with held | ⟨held, -⟩ <;> rw [held] at held' <;> cases held'
  left := counted.left
  passed := by
    have passed := counted.passed
    rcases done with held | ⟨held, -⟩ <;>
      · simp only [SemaphoreRun.lowering, held] at passed
        exact passed

/-- **Every step** keeps the count. -/
theorem step (counted : Counted cpus sem v s) (real : sem ≠ 0) {a : SemaphoreAction}
    {t : SemaphoreRun} (taken : semaphoreStep cpus sem s a = some t) : Counted cpus sem v t := by
  cases a with
  | other a =>
      simp only [semaphoreStep] at taken
      split at taken
      · rename_i alone
        obtain ⟨m, moved, rfl⟩ := Option.map_eq_some_iff.1 taken
        exact counted.other alone moved
      · cases taken
  | down cpu =>
      simp only [semaphoreStep] at taken
      split at taken
      · rename_i ready
        cases taken
        exact counted.down ready.1 ready.2.1 ready.2.2.1 ready.2.2.2
      · cases taken
  | downQueue cpu =>
      simp only [semaphoreStep] at taken
      split at taken
      · rename_i ready
        obtain ⟨m, moved, rfl⟩ := Option.map_eq_some_iff.1 taken
        exact counted.downQueue ready.1 ready.2 moved
      · cases taken
  | downLeave cpu =>
      simp only [semaphoreStep] at taken
      split at taken
      · rename_i held
        cases taken
        exact counted.downLeave held
      · cases taken
  | downPass cpu =>
      simp only [semaphoreStep] at taken
      split at taken
      · rename_i ready
        cases taken
        exact counted.downPass ready.1 ready.2
      · cases taken
  | resume cpu =>
      simp only [semaphoreStep] at taken
      split at taken
      · rename_i ready
        cases taken
        exact counted.resume ready.1 ready.2
      · cases taken
  | up cpu =>
      simp only [semaphoreStep] at taken
      split at taken
      · rename_i ready
        cases taken
        exact counted.up ready.1
      · cases taken
  | upWake cpu =>
      simp only [semaphoreStep] at taken
      split at taken
      · rename_i ready
        obtain ⟨m, moved, rfl⟩ := Option.map_eq_some_iff.1 taken
        exact counted.upWake real ready.1 ready.2 moved
      · cases taken
  | upDone cpu =>
      simp only [semaphoreStep] at taken
      split at taken
      · rename_i done
        cases taken
        exact counted.upDone done
      · cases taken

theorem reachable (real : sem ≠ 0) (reached : (semaphoreSystem cpus sem v).Reachable s) :
    Counted cpus sem v s := by
  induction reached with
  | start first =>
      obtain ⟨m, running, empty, rfl⟩ := first
      exact .start running empty
  | step _ _ taken ih => exact ih.step real taken

/-- No more threads have got past `semaphore_P` than the semaphore had values for. -/
theorem passed_le (counted : Counted cpus sem v s) : s.passed ≤ v + s.ups := by
  have value := counted.value
  have passed := counted.passed
  have length := counted.length
  have nodup : (s.queue sem).Nodup := queueOf_nodup counted.machine sem
  have tids : ∀ t ∈ s.queue sem, IsTid t := fun t mem =>
    ((mem_queueOf counted.machine).1 mem).1
  have bound : ∀ f : Finset Int, (∀ t ∈ s.queue sem, t ∈ f) → (s.queue sem).length ≤ f.card := by
    intro f sub
    rw [← List.toFinset_card_of_nodup nodup]
    exact Finset.card_le_card fun t mem => sub t (List.mem_toFinset.1 mem)
  by_cases queues : ∃ cpu, s.holder = some (cpu, .queued)
  · obtain ⟨cpu, held⟩ := queues
    have all := bound (insert (s.current cpu) s.waiting) fun t mem => by
      rw [Finset.mem_insert, SemaphoreRun.waiting, mem_waitingIn]
      rcases counted.places t mem with waits | ⟨c, held', same⟩
      · exact .inr ⟨tids t mem, waits⟩
      · rw [held] at held'
        cases held'
        exact .inl same
    have card := Finset.card_insert_le (s.current cpu) s.waiting
    simp only [SemaphoreRun.lowering, held, Option.isSome_some, if_true] at passed
    simp only [SemaphoreRun.settled, held] at length
    omega
  · have all := bound s.waiting fun t mem => by
      rw [SemaphoreRun.waiting, mem_waitingIn]
      rcases counted.places t mem with waits | ⟨c, held, -⟩
      · exact ⟨tids t mem, waits⟩
      · exact absurd ⟨c, held⟩ queues
    unfold SemaphoreRun.settled at length
    unfold SemaphoreRun.lowering at passed
    split at length
    · rename_i held
      simp only [held, Option.isSome_some, if_true] at passed
      omega
    · omega
    · omega

end Counted

/-- **Kernel semaphores are counting and FIFO.**  Take any interleaving of `semaphore_P`
and `semaphore_V` on a semaphore created with value `v`, among anything else that the
threads do.  The value is `v`, plus the calls of `semaphore_V`, minus the calls of
`semaphore_P`.  Whenever the semaphore's spinlock is free, as many threads are queued on it
as the value is negative, and the threads that have queued themselves are those released so
far followed by those in the queue, in the order of their `semaphore_P`.  No more threads
have got past `semaphore_P` than there were values, and a `semaphore_V` that finds a value
of at most 0 releases the first thread of the queue and no other. -/
theorem semaphore_counts (cpus : Nat) (sem : Word) (real : sem ≠ 0) (v : Nat) {s : SemaphoreRun}
    (reached : (semaphoreSystem cpus sem v).Reachable s) :
    s.machine.panicked = false ∧
    s.value = v + s.ups - s.downs ∧
    (s.holder = none → ((queueOf s.machine.threads sem).length : Int) = max 0 (-s.value)) ∧
    s.passed ≤ v + s.ups ∧
    s.releasedLog <+: s.queuedLog ∧
    (s.holder = none → s.queuedLog = s.releasedLog ++ queueOf s.machine.threads sem) ∧
    (∀ cpu, s.holder = some (cpu, .raised) → s.value ≤ 0 →
      ∃ t w, (semaphoreSystem cpus sem v).step s (.upWake cpu) = some t ∧
        queueOf s.machine.threads sem = w :: queueOf t.machine.threads sem ∧
        t.machine.threads.sleepsOn w = 0 ∧ t.releasedLog = s.releasedLog ++ [w]) := by
  have counted := Counted.reachable real reached
  refine ⟨(placed_reachable counted.machine).1, counted.value, ?_, counted.passed_le, ?_, ?_, ?_⟩
  · intro free
    have length := counted.length
    simp only [SemaphoreRun.settled, free] at length
    exact length
  · rw [counted.order, List.append_assoc]
    exact List.prefix_append _ _
  · intro free
    have order := counted.order
    simp only [SemaphoreRun.pending, free, List.append_nil] at order
    exact order
  · intro cpu held few
    obtain ⟨m, taken⟩ := step_taken counted.machine (a := .wake sem) rfl
    obtain ⟨w, queue, off, released⟩ := counted.wakes real held few taken
    refine ⟨{ s with
      machine := m
      holder := some (cpu, .woken)
      releasedLog := s.releasedLog ++
        SemaphoreRun.releasedBetween sem s.machine.threads m.threads }, w, ?_, queue, off, ?_⟩
    · simp [semaphoreSystem, semaphoreStep, held, few, taken]
    · rw [← released]

/-- A thread sleeps in `semaphore_P`; an interrupt handler's `semaphore_V` releases it. -/
theorem semaphore_counts_wakes :
    ∃ s t w, (semaphoreSystem 1 5 0).exec (.created .boot 0)
        [.other .create, .other (.init 1), .other (.addReady 1), .other (.schedule 0), .down 0,
          .downQueue 0, .downLeave 0, .other (.schedule 0), .up 0] = some s ∧
      (semaphoreSystem 1 5 0).step s (.upWake 0) = some t ∧
      queueOf s.machine.threads 5 = w :: queueOf t.machine.threads 5 ∧ s.passed ≤ 0 + s.ups := by
  have ran : ((semaphoreSystem 1 5 0).exec (.created .boot 0)
        [.other .create, .other (.init 1), .other (.addReady 1), .other (.schedule 0), .down 0,
          .downQueue 0, .downLeave 0, .other (.schedule 0), .up 0]).any
      (fun s => s.holder = some (0, .raised) ∧ s.value ≤ 0) = true := by decide
  obtain ⟨s, reached, state⟩ := (Option.any_eq_true _ _).1 ran
  obtain ⟨held, few⟩ := of_decide_eq_true state
  have empty : queueOf Machine.boot.threads 5 = [] := by decide
  have run := (System.Reachable.start (M := semaphoreSystem 1 5 0)
    ⟨Machine.boot, .start rfl, empty, rfl⟩).exec reached
  obtain ⟨-, -, -, passed, -, -, wakes⟩ := semaphore_counts 1 5 (by decide) 0 run
  obtain ⟨t, w, taken, queue, -⟩ := wakes 0 held few
  exact ⟨s, t, w, reached, taken, queue, passed⟩

end Buenos.Kernel
