/-
# Kernel.RoundRobin -- the ready list is a queue, and nobody waits for ever

`threads_in_place` says where the threads are.  This module says in which order they run.
Read off the links, the ready list is a FIFO queue: `scheduler_schedule` puts the thread it
takes off the CPU at the end, unless that thread sleeps, is dying or is the idle thread,
and takes the first one; every other section only appends (`ready_refines`).  So a thread
at position `k` is given a CPU by the switch that comes after `k` others, on whatever CPUs
these happen and whatever else does (`round_robin`).
-/
import Buenos.Kernel.SleepQueue
import Buenos.Theory.Fifo

namespace Buenos.Kernel

open Buenos.Lib Buenos.Theory

set_option autoImplicit false

/-- What a switch puts back on the ready list. -/
def Threads.requeued (s : Threads) (cpu : Nat) : List Int :=
  if s.state (s.schedulerCurrentThread cpu) = .dying ∨
      s.sleepsOn (s.schedulerCurrentThread cpu) ≠ 0 ∨
      s.schedulerCurrentThread cpu = IDLE_THREAD_TID then []
  else [s.schedulerCurrentThread cpu]

/-- The state of a thread that a switch took off its CPU. -/
def Threads.retired (s : Threads) (t : Int) : ThreadState :=
  if s.state t = .dying then .free else if s.sleepsOn t ≠ 0 then .sleeping else .ready

/-- What an action appends to the ready list. -/
def Action.readies (s : Threads) : Action → List Int
  | .schedule cpu => s.requeued cpu
  | .addReady t => [t]
  | .wake resource => sleepersIn s ((queueOf s resource).take 1)
  | .wakeAll resource => sleepersIn s (queueOf s resource)
  | _ => []

/-- The switches. -/
def Action.switches : Action → Bool
  | .schedule _ => true
  | _ => false

/-- The list that a switch takes its first member from, or the list after another action. -/
def Action.lined (s : Threads) (a : Action) : List Int := readyList s ++ a.readies s

namespace Placed

variable {cpus : Nat} {s : Threads} {birth : Int → Birth} {ready : List Int}
  {chain : Nat → List Int}

/-- The thread that leaves a CPU, as links and states. -/
theorem retire (placed : Placed cpus s birth ready chain) {cpu : Nat} (on : cpu < cpus) :
    ∃ u, schedulePrevious (s.schedulerCurrentThread cpu) s = .returned ((), u) ∧
      Links u (ready ++ s.requeued cpu) chain ∧ u.sleepsOn = s.sleepsOn ∧
      u.schedulerCurrentThread = s.schedulerCurrentThread ∧
      u.state = Function.update s.state (s.schedulerCurrentThread cpu)
        (s.retired (s.schedulerCurrentThread cpu)) := by
  obtain ⟨p, previous⟩ : ∃ p, p = s.schedulerCurrentThread cpu := ⟨_, rfl⟩
  rw [Threads.requeued, ← previous, Threads.retired]
  by_cases dies : s.state p = .dying
  · refine ⟨s.setState p .free, by rw [schedulePrevious, if_pos dies], ?_, rfl, rfl, ?_⟩
    · rw [if_pos (.inl dies), List.append_nil]
      exact placed.links.of_eq rfl rfl rfl rfl
    · rw [if_pos dies]
      rfl
  · by_cases waits : s.sleepsOn p ≠ 0
    · refine ⟨s.setState p .sleeping, ?_, ?_, rfl, rfl, ?_⟩
      · rw [schedulePrevious, if_neg dies, if_pos waits]
      · rw [if_pos (.inr (.inl waits)), List.append_nil]
        exact placed.links.of_eq rfl rfl rfl rfl
      · rw [if_neg dies, if_pos waits]
        rfl
    · by_cases idle : p = IDLE_THREAD_TID
      · refine ⟨s.setState p .ready, ?_, ?_, rfl, rfl, ?_⟩
        · rw [schedulePrevious, if_neg dies, if_neg waits, if_neg (not_not.2 idle)]
        · rw [if_pos (.inr (.inr idle)), List.append_nil]
          exact placed.links.of_eq rfl rfl rfl rfl
        · rw [if_neg dies, if_neg waits]
          rfl
      · obtain ⟨tid, runs⟩ := placed.current cpu on (previous ▸ idle)
        rw [← previous] at tid runs
        have notReady : p ∉ ready := by
          intro mem
          have := ((placed.onReady p).1 mem).2
          rcases runs with bad | bad <;> rw [bad] at this <;> cases this
        obtain ⟨m, ran, added, same, -, -⟩ := placed.links.addToReady tid notReady
          (placed.not_onChain (not_not.1 waits))
        refine ⟨m.setState p .ready, ?_, ?_, same.sleepsOn, same.current, ?_⟩
        · rw [schedulePrevious, if_neg dies, if_neg waits, if_pos idle, schedulerAddReady,
            Prog.bind_of_returned ran]
          rfl
        · rw [if_neg (by simp [dies, not_not.1 waits, idle])]
          exact added.of_eq rfl rfl rfl rfl
        · rw [if_neg dies, if_neg waits, Threads.setState, same.state]

/-- The list that a switch chooses from holds ready threads only. -/
theorem lined_ready (placed : Placed cpus s birth ready chain) {cpu : Nat} {t : Int}
    (mem : t ∈ ready ++ s.requeued cpu) :
    Function.update s.state (s.schedulerCurrentThread cpu)
      (s.retired (s.schedulerCurrentThread cpu)) t = .ready := by
  by_cases same : t = s.schedulerCurrentThread cpu
  · subst same
    rw [Function.update_self, Threads.retired]
    rcases List.mem_append.1 mem with old | new
    · obtain ⟨tid, ready⟩ := (placed.onReady _).1 old
      rw [if_neg (by rw [ready]; decide), if_neg]
      intro waits
      rcases placed.queued _ tid waits with bad | bad <;> rw [ready] at bad <;> cases bad
    · rw [Threads.requeued] at new
      split at new
      · cases new
      · rename_i goes
        rw [if_neg fun dies => goes (.inl dies), if_neg fun waits => goes (.inr (.inl waits))]
  · rw [Function.update_of_ne same]
    rcases List.mem_append.1 mem with old | new
    · exact ((placed.onReady t).1 old).2
    · rw [Threads.requeued] at new
      split at new
      · cases new
      · exact absurd (List.mem_singleton.1 new) same

/-- **`scheduler_schedule`, exactly.** -/
theorem dispatch (placed : Placed cpus s birth ready chain) {cpu : Nat} (on : cpu < cpus) :
    ∃ u, schedulerSchedule cpu s = .returned ((), u) ∧
      Links u (ready ++ s.requeued cpu).tail chain ∧
      u.schedulerCurrentThread = Function.update s.schedulerCurrentThread cpu
        ((ready ++ s.requeued cpu).head?.getD 0) ∧
      u.state = Function.update (Function.update s.state (s.schedulerCurrentThread cpu)
        (s.retired (s.schedulerCurrentThread cpu)))
        ((ready ++ s.requeued cpu).head?.getD 0) .running := by
  obtain ⟨m, ran, links, sleepsOn, current, state⟩ := placed.retire on
  have states : ∀ t ∈ ready ++ s.requeued cpu, m.state t = .ready := fun t mem => by
    rw [state]
    exact placed.lined_ready mem
  obtain ⟨v, removed, links', same, -⟩ := links.removeFirst states
  refine ⟨{ v.setState ((ready ++ s.requeued cpu).head?.getD 0) .running with
      schedulerCurrentThread := Function.update v.schedulerCurrentThread cpu
        ((ready ++ s.requeued cpu).head?.getD 0) }, ?_, links'.of_eq rfl rfl rfl rfl, ?_, ?_⟩
  · rw [schedulerSchedule, Prog.bind_gets_apply, Prog.bind_of_returned ran,
      Prog.bind_of_returned removed]
    rfl
  · simp only [same.current, current]
  · simp only [Threads.setState, same.state, state]

end Placed

section Steps

variable {cpus : Nat} {s t : Machine} {a : Action}

theorem readyList_of_links {u : Threads} {ready : List Int} {chain : Nat → List Int}
    (links : Links u ready chain) : readyList u = ready :=
  members_of_linked links.readyLinked (length_lt_of_nodup links.readyNodup links.readyTids).le

/-- The state that a step leads to is the section's. -/
theorem step_ran (reached : (threadSystem cpus).Reachable s)
    (taken : (threadSystem cpus).step s a = some t) {result : Int} {u : Threads}
    (ran : a.run s.threads = .returned (result, u)) :
    t.threads = u ∧ t.birth = birthAfter s.birth result a := by
  obtain ⟨calm, -⟩ := placed_reachable reached
  simp only [threadSystem, calm, Bool.false_or, ran] at taken
  split at taken
  · cases taken
  · cases taken
    exact ⟨rfl, rfl⟩

/-- A section without a result. -/
theorem run_unit {m : Prog Threads Unit} {s u : Threads} (ran : m s = .returned ((), u)) :
    (do m; pure 0 : Prog Threads Int) s = .returned (0, u) := by
  rw [Prog.bind_of_returned ran]
  rfl

/-- A switch, on the list and on the CPU. -/
theorem switch_step {cpu : Nat} (reached : (threadSystem cpus).Reachable s)
    (taken : (threadSystem cpus).step s (.schedule cpu) = some t) :
    readyList t.threads = ((Action.schedule cpu).lined s.threads).tail ∧
      t.threads.schedulerCurrentThread = Function.update s.threads.schedulerCurrentThread cpu
        (((Action.schedule cpu).lined s.threads).head?.getD 0) ∧
      t.threads.state = Function.update (Function.update s.threads.state
        (s.threads.schedulerCurrentThread cpu)
        (s.threads.retired (s.threads.schedulerCurrentThread cpu)))
        (((Action.schedule cpu).lined s.threads).head?.getD 0) .running := by
  obtain ⟨allowed, -, ready, chain, -, placed, -, -⟩ := step_effect reached taken
  have on : cpu < cpus := by simpa [Machine.allows] using allowed
  obtain ⟨u, ran, links, current, state⟩ := placed.dispatch on
  rw [(step_ran reached taken (run_unit ran)).1, readyList_of_links links, Action.lined,
    placed.readyList_eq]
  exact ⟨rfl, current, state⟩

/-- Every other section only appends. -/
theorem ready_step (reached : (threadSystem cpus).Reachable s)
    (taken : (threadSystem cpus).step s a = some t) (other : a.switches = false) :
    readyList t.threads = a.lined s.threads := by
  obtain ⟨allowed, -, ready, chain, ready', placed, placed', effect⟩ := step_effect reached taken
  have given : ∀ {u : Threads} {result : Int} {new : List Int} {birth : Int → Birth}
      {chain : Nat → List Int}, a.run s.threads = .returned (result, u) →
      Placed cpus u birth new chain → ready' = new := by
    intro u result new birth chain ran made
    rw [← placed'.readyList_eq, (step_ran reached taken ran).1, made.readyList_eq]
  rw [Action.lined, placed.readyList_eq, placed'.readyList_eq]
  cases a with
  | schedule cpu => cases other
  | create =>
      obtain ⟨u, result, ran, made, -⟩ := placed.create
      exact (given ran made).trans (List.append_nil _).symm
  | init x =>
      obtain ⟨u, ran, made, -⟩ := placed.init (t := x) (by simpa [Machine.allows] using allowed)
      exact (given (run_unit ran) made).trans (List.append_nil _).symm
  | addReady x =>
      obtain ⟨u, ran, made, -⟩ := placed.addReady (t := x)
        (by simpa [Machine.allows] using allowed)
      exact given (run_unit ran) made
  | finish cpu =>
      simp only [Machine.allows, Bool.and_eq_true, decide_eq_true_eq] at allowed
      obtain ⟨u, ran, made, -⟩ := placed.finish allowed.1 allowed.2
      exact (given (run_unit ran) made).trans (List.append_nil _).symm
  | sleepqAdd cpu resource =>
      simp only [Machine.allows, Bool.and_eq_true, decide_eq_true_eq] at allowed
      obtain ⟨u, ran, made, -⟩ := placed.sleepqAdd allowed.1.1 allowed.1.2 allowed.2
      exact (given (run_unit ran) made).trans (List.append_nil _).symm
  | wake resource =>
      rw [(effect.wakes resource (.inl rfl)).1, placed.removes_eq]
      rfl
  | wakeAll resource =>
      rw [(effect.wakes resource (.inr rfl)).1, placed.removes_eq]
      rfl

/-- The ready list is a queue that the switches serve. -/
theorem readyFifo (cpus : Nat) :
    Fifo (threadSystem cpus) (fun m => readyList m.threads) Action.switches where
  joins := by
    intro s t a reached taken other
    rw [ready_step reached taken other]
    exact List.prefix_append _ _
  takes := by
    intro s t a reached taken switch some
    cases a with
    | schedule cpu =>
        rw [(switch_step reached taken).1, Action.lined, List.tail_append_of_ne_nil some]
        exact List.prefix_append _ _
    | create | init | addReady | finish | sleepqAdd | wake | wakeAll => cases switch

end Steps

/-- **The ready list is a FIFO queue.**  In every run on any number of CPUs, every section
but a switch appends to the ready list the threads that it makes ready, in the order of
their sleep queue.  A switch first appends the thread it takes off the CPU, unless that is
asleep, dying or the idle thread, and then takes the first thread of the list, or the idle
thread exactly when there is none. -/
theorem ready_refines (cpus : Nat) {s t : Machine} {a : Action}
    (reached : (threadSystem cpus).Reachable s) (taken : (threadSystem cpus).step s a = some t) :
    (a.switches = false → readyList t.threads = readyList s.threads ++ a.readies s.threads) ∧
    ∀ cpu, a = .schedule cpu →
      (∀ next rest, readyList s.threads ++ a.readies s.threads = next :: rest →
        t.threads.schedulerCurrentThread cpu = next ∧ t.threads.state next = .running ∧
          readyList t.threads = rest) ∧
      (t.threads.schedulerCurrentThread cpu = IDLE_THREAD_TID ↔
        readyList s.threads ++ a.readies s.threads = []) := by
  refine ⟨fun other => ready_step reached taken other, ?_⟩
  rintro cpu rfl
  obtain ⟨list, current, state⟩ := switch_step reached taken
  rw [Action.lined] at list current state
  refine ⟨?_, ?_⟩
  · intro next rest shape
    rw [shape] at list current state
    refine ⟨by rw [current, Function.update_self]; rfl, ?_, list⟩
    rw [state]
    exact Function.update_self ..
  · rw [current, Function.update_self, IDLE_THREAD_TID]
    obtain ⟨-, ready, chain, placed⟩ := placed_reachable reached
    cases shape : readyList s.threads ++ (Action.schedule cpu).readies s.threads with
    | nil => simp
    | cons next rest =>
        have positive : IsTid next := by
          have mem : next ∈ ready ++ s.threads.requeued cpu := by
            rw [← placed.readyList_eq, ← Action.readies, shape]
            exact List.mem_cons_self
          rcases List.mem_append.1 mem with old | new
          · exact placed.links.readyTids next old
          · have allowed := (step_effect reached taken).1
            rw [Threads.requeued] at new
            split at new
            · cases new
            · rename_i goes
              rw [List.mem_singleton.1 new]
              exact (placed.current cpu (by simpa [Machine.allows] using allowed)
                fun idle => goes (.inr (.inr idle))).1
        have := positive.1
        simp only [List.head?_cons, Option.getD_some, reduceCtorEq, iff_false]
        omega

/-- A thread that is made ready goes behind the one on the list, and a switch of a CPU that ran the
idle thread takes the first of the two. -/
theorem ready_refines_first :
    ∃ s t u, (threadSystem 1).exec Machine.boot
        [.create, .init 1, .addReady 1, .create, .init 2] = some s ∧
      (threadSystem 1).step s (.addReady 2) = some t ∧
      (threadSystem 1).step t (.schedule 0) = some u ∧
      readyList s.threads = [1] ∧ readyList t.threads = [1, 2] ∧
      u.threads.schedulerCurrentThread 0 = 1 ∧ readyList u.threads = [2] := by
  have ran : ((threadSystem 1).exec Machine.boot
      [.create, .init 1, .addReady 1, .create, .init 2]).any (fun s =>
        decide (readyList s.threads = [1] ∧ (Action.addReady 2).readies s.threads = [2]) &&
          ((threadSystem 1).step s (.addReady 2)).any fun t =>
            decide ((Action.schedule 0).readies t.threads = []) &&
              ((threadSystem 1).step t (.schedule 0)).isSome) = true := by decide
  obtain ⟨s, executed, added⟩ := (Option.any_eq_true _ _).1 ran
  simp only [Bool.and_eq_true, decide_eq_true_eq] at added
  obtain ⟨⟨one, two⟩, added⟩ := added
  obtain ⟨t, added, goes⟩ := (Option.any_eq_true _ _).1 added
  simp only [Bool.and_eq_true, decide_eq_true_eq] at goes
  obtain ⟨none, goes⟩ := goes
  obtain ⟨u, switched⟩ := Option.isSome_iff_exists.1 goes
  have run := (System.Reachable.start (M := threadSystem 1) (s := Machine.boot) rfl).exec executed
  have both : readyList t.threads = [1, 2] := by
    rw [(ready_refines 1 run added).1 rfl, one, two]
    rfl
  obtain ⟨first, -⟩ := (ready_refines 1 (run.next added) switched).2 0 rfl
  obtain ⟨current, -, rest⟩ := first 1 [2] (by rw [both, none]; rfl)
  exact ⟨s, t, u, executed, added, switched, one, both, current, rest⟩

/-- **Round robin.**  A thread at position `k` of the ready list is given a CPU by exactly
the switch that comes after `k` others, on whatever CPUs the switches happen and whatever
else the threads do meanwhile.  There are fewer positions than rows in the table, so no
ready thread waits for more than 31 switches. -/
theorem round_robin (cpus : Nat) {s t : Machine} {as : List Action} {k : Nat} {x : Int}
    (reached : (threadSystem cpus).Reachable s) (ran : (threadSystem cpus).exec s as = some t)
    (waits : (readyList s.threads)[k]? = some x) :
    k < CONFIG_MAX_THREADS - 1 ∧
    (k < as.countP Action.switches → ∃ pre cpu post u v, as = pre ++ .schedule cpu :: post ∧
      (threadSystem cpus).exec s pre = some u ∧ pre.countP Action.switches = k ∧
      (threadSystem cpus).step u (.schedule cpu) = some v ∧
      v.threads.schedulerCurrentThread cpu = x ∧ v.threads.state x = .running ∧
      (threadSystem cpus).exec v post = some t) := by
  refine ⟨?_, ?_⟩
  · obtain ⟨-, ready, chain, placed⟩ := placed_reachable reached
    have short := length_lt_of_nodup placed.links.readyNodup placed.links.readyTids
    rw [placed.readyList_eq] at waits
    obtain ⟨inside, -⟩ := List.getElem?_eq_some_iff.1 waits
    omega
  · intro many
    obtain ⟨pre, a, post, u, v, shape, before, count, switch, first, moved, after⟩ :=
      (readyFifo cpus).served reached ran waits many
    cases a with
    | schedule cpu =>
        obtain ⟨-, current, state⟩ := switch_step (reached.exec before) moved
        have chosen : ((Action.schedule cpu).lined u.threads).head?.getD 0 = x := by
          rw [Action.lined, List.head?_append, first]
          rfl
        rw [chosen] at current state
        refine ⟨pre, cpu, post, u, v, shape, before, count, moved, ?_, ?_, after⟩
        · rw [current, Function.update_self]
        · rw [state, Function.update_self]
    | create | init | addReady | finish | sleepqAdd | wake | wakeAll => cases switch

/-- The second of two threads runs at the second switch. -/
theorem round_robin_second :
    ∃ s t, (threadSystem 2).exec Machine.boot
        [.create, .init 1, .addReady 1, .create, .init 2, .addReady 2] = some s ∧
      (threadSystem 2).exec s [.schedule 0, .wake 5, .schedule 1] = some t ∧
      ∃ pre cpu post u v, [.schedule 0, .wake 5, .schedule 1] = pre ++ .schedule cpu :: post ∧
        (threadSystem 2).exec s pre = some u ∧ pre.countP Action.switches = 1 ∧
        (threadSystem 2).step u (.schedule cpu) = some v ∧
        v.threads.schedulerCurrentThread cpu = 2 ∧ v.threads.state 2 = .running ∧
        (threadSystem 2).exec v post = some t := by
  have ran : ((threadSystem 2).exec Machine.boot
      [.create, .init 1, .addReady 1, .create, .init 2, .addReady 2]).any (fun s =>
        (readyList s.threads)[1]? = some 2 ∧
          ((threadSystem 2).exec s [.schedule 0, .wake 5, .schedule 1]).isSome) = true := by decide
  obtain ⟨s, reached, facts⟩ := (Option.any_eq_true _ _).1 ran
  obtain ⟨waits, goes⟩ := of_decide_eq_true facts
  obtain ⟨t, taken⟩ := Option.isSome_iff_exists.1 goes
  have run := (System.Reachable.start (M := threadSystem 2) (s := Machine.boot) rfl).exec reached
  exact ⟨s, t, reached, taken, (round_robin 2 run taken waits).2 (by decide)⟩

end Buenos.Kernel
