/-
# Kernel.Interleaving -- the thread table under every interleaving

`Placed` is the invariant of the system of critical sections: the links carry the
ready list and the chains, and the columns of the table agree with them and with the
CPUs.  Every section keeps it (`placed_step`), so it holds of every run
(`placed_reachable`), and no assertion of the scheduler ever fails.
-/
import Buenos.Kernel.Placement

namespace Buenos.Kernel

open Buenos.Lib Buenos.Theory

set_option autoImplicit false

/-- Where every thread other than the idle thread is. -/
structure Placed (cpus : Nat) (s : Threads) (birth : Int → Birth) (ready : List Int)
    (chain : Nat → List Int) : Prop where
  links : Links s ready chain
  onReady : ∀ t, t ∈ ready ↔ IsTid t ∧ s.state t = .ready
  onChain : ∀ h t, t ∈ chain h ↔ IsTid t ∧ s.sleepsOn t ≠ 0 ∧ sleepqHash (s.sleepsOn t) = h
  queued : ∀ t, IsTid t → s.sleepsOn t ≠ 0 → s.state t = .sleeping ∨ s.state t = .running
  asleep : ∀ t, IsTid t → s.state t = .sleeping → s.sleepsOn t ≠ 0
  current : ∀ cpu < cpus, s.schedulerCurrentThread cpu ≠ 0 →
    IsTid (s.schedulerCurrentThread cpu) ∧ (s.state (s.schedulerCurrentThread cpu) = .running ∨
      s.state (s.schedulerCurrentThread cpu) = .dying)
  unique : ∀ c < cpus, ∀ k < cpus, s.schedulerCurrentThread c ≠ 0 →
    s.schedulerCurrentThread c = s.schedulerCurrentThread k → c = k
  running : ∀ t, IsTid t → s.state t = .running ∨ s.state t = .dying →
    ∃ cpu < cpus, s.schedulerCurrentThread cpu = t
  idle : s.state 0 ≠ .dying ∧ s.sleepsOn 0 = 0
  unborn : ∀ t, birth t ≠ .none → IsTid t ∧ s.state t = .nonready

theorem placed_init (cpus : Nat) :
    Placed cpus threadTableInit (fun _ => .none) [] (fun _ => []) where
  links :=
    { readyLinked := Linked.nil_iff.2 (by decide)
      tail := rfl
      chainLinked := fun _ => Linked.nil_iff.2 (by show (-1 : Int) < 0; decide)
      readyNodup := List.nodup_nil
      chainNodup := fun _ => List.nodup_nil
      apart := by simp
      chainsApart := by simp
      readyTids := by simp
      chainTids := by simp }
  onReady := by
    intro t
    simp only [List.not_mem_nil, false_iff, not_and]
    rintro ⟨positive, -⟩
    simp [threadTableInit, IDLE_THREAD_TID, show t ≠ 0 by omega]
  onChain := by simp [threadTableInit]
  queued := by simp [threadTableInit]
  asleep := by
    intro t _ asleep
    simp only [threadTableInit] at asleep
    split at asleep <;> simp at asleep
  current := by simp [threadTableInit]
  unique := by simp [threadTableInit]
  running := by
    intro t _ runs
    simp only [threadTableInit] at runs
    split at runs <;> simp at runs
  idle := by simp [threadTableInit, IDLE_THREAD_TID]
  unborn := by simp

namespace Placed

variable {cpus : Nat} {s : Threads} {birth : Int → Birth} {ready : List Int}
  {chain : Nat → List Int}

/-- A thread that neither sleeps nor is queued is on no chain. -/
theorem not_onChain (placed : Placed cpus s birth ready chain) {t : Int}
    (awake : s.sleepsOn t = 0) (h : Nat) : t ∉ chain h := fun mem =>
  ((placed.onChain h t).1 mem).2.1 awake

/-- The other CPUs do not run the thread of this one. -/
theorem elsewhere (placed : Placed cpus s birth ready chain) {cpu c : Nat} (on : cpu < cpus)
    (other : c < cpus) (ne : c ≠ cpu) (busy : s.schedulerCurrentThread cpu ≠ 0) :
    s.schedulerCurrentThread c ≠ s.schedulerCurrentThread cpu := fun same =>
  ne (placed.unique c other cpu on (by rw [same]; exact busy) same)

/-- Take the current thread off its CPU, into a state in which it is on no CPU. -/
theorem leave (placed : Placed cpus s birth ready chain) {cpu : Nat} (on : cpu < cpus)
    {u : Threads} {ready' : List Int} (after : ThreadState) (links : Links u ready' chain)
    (state : u.state = Function.update s.state (s.schedulerCurrentThread cpu) after)
    (sleepsOn : u.sleepsOn = s.sleepsOn)
    (current : u.schedulerCurrentThread = Function.update s.schedulerCurrentThread cpu 0)
    (onReady : ∀ t, t ∈ ready' ↔ IsTid t ∧ u.state t = .ready)
    (away : after ≠ .running ∧ after ≠ .dying)
    (sleeps : s.schedulerCurrentThread cpu ≠ 0 →
      (s.sleepsOn (s.schedulerCurrentThread cpu) ≠ 0 ↔ after = .sleeping)) :
    Placed cpus u birth ready' chain := by
  obtain ⟨p, previous⟩ : ∃ p, p = s.schedulerCurrentThread cpu := ⟨_, rfl⟩
  rw [← previous] at state sleeps
  have tidNe : ∀ t, IsTid t → t = p → p ≠ 0 := by
    rintro t ⟨positive, -⟩ rfl
    omega
  exact
    { links := links
      onReady := onReady
      onChain := fun h t => by rw [sleepsOn]; exact placed.onChain h t
      queued := fun t tid => by
        rw [sleepsOn, state]
        intro waits
        by_cases same : t = p
        · subst same
          rw [Function.update_self]
          exact .inl ((sleeps (tidNe t tid rfl)).1 waits)
        · rw [Function.update_of_ne same]
          exact placed.queued t tid waits
      asleep := fun t tid => by
        rw [sleepsOn, state]
        intro asleep
        by_cases same : t = p
        · subst same
          rw [Function.update_self] at asleep
          exact (sleeps (tidNe t tid rfl)).2 asleep
        · rw [Function.update_of_ne same] at asleep
          exact placed.asleep t tid asleep
      current := fun c other busy => by
        rw [current] at busy ⊢
        by_cases same : c = cpu
        · subst same
          rw [Function.update_self] at busy
          exact absurd rfl busy
        · rw [Function.update_of_ne same] at busy ⊢
          have ne : s.schedulerCurrentThread c ≠ p := by
            intro eq
            rw [previous] at eq
            exact placed.elsewhere on other same (by rw [← eq]; exact busy) eq
          rw [state, Function.update_of_ne ne]
          exact placed.current c other busy
      unique := fun c first k second busy eq => by
        rw [current] at busy eq
        by_cases same : c = cpu
        · subst same
          rw [Function.update_self] at busy
          exact absurd rfl busy
        · rw [Function.update_of_ne same] at busy eq
          by_cases same' : k = cpu
          · subst same'
            rw [Function.update_self] at eq
            exact absurd eq busy
          · rw [Function.update_of_ne same'] at eq
            exact placed.unique c first k second busy eq
      running := fun t tid runs => by
        rw [state] at runs
        have ne : t ≠ p := by
          rintro rfl
          rw [Function.update_self] at runs
          exact runs.elim away.1 away.2
        rw [Function.update_of_ne ne] at runs
        obtain ⟨c, other, runsIt⟩ := placed.running t tid runs
        refine ⟨c, other, ?_⟩
        rw [current, Function.update_of_ne, runsIt]
        rintro rfl
        exact ne (previous ▸ runsIt.symm)
      idle := by
        rw [state, sleepsOn]
        refine ⟨?_, placed.idle.2⟩
        by_cases same : 0 = p
        · rw [← same, Function.update_self]
          exact away.2
        · rw [Function.update_of_ne same]
          exact placed.idle.1
      unborn := fun t born => by
        obtain ⟨tid, nonready⟩ := placed.unborn t born
        refine ⟨tid, ?_⟩
        have ne : t ≠ p := by
          rintro rfl
          obtain ⟨-, runs | dies⟩ := placed.current cpu on
            (previous ▸ tidNe t tid rfl)
          · rw [← previous, nonready] at runs
            cases runs
          · rw [← previous, nonready] at dies
            cases dies
        rw [state, Function.update_of_ne ne]
        exact nonready }

/-- Put the first ready thread, or else the idle thread, on a CPU that has none. -/
theorem arrive (placed : Placed cpus s birth ready chain) {cpu : Nat} (on : cpu < cpus)
    (vacant : s.schedulerCurrentThread cpu = 0) {u : Threads}
    (links : Links u ready.tail chain)
    (state : u.state = Function.update s.state (ready.head?.getD 0) .running)
    (sleepsOn : u.sleepsOn = s.sleepsOn)
    (current : u.schedulerCurrentThread =
      Function.update s.schedulerCurrentThread cpu (ready.head?.getD 0)) :
    Placed cpus u birth ready.tail chain := by
  obtain ⟨n, next⟩ : ∃ n, n = ready.head?.getD 0 := ⟨_, rfl⟩
  rw [← next] at state current
  have wasReady : n ≠ 0 → IsTid n ∧ s.state n = .ready := by
    intro some
    apply (placed.onReady n).1
    cases ready with
    | nil => exact absurd next some
    | cons t rest =>
        simp only [List.head?_cons, Option.getD_some] at next
        exact next ▸ List.mem_cons_self
  have awake : IsTid n → s.sleepsOn n = 0 := by
    intro tid
    by_contra waits
    have ready := (wasReady (by have := tid.1; omega)).2
    rcases placed.queued n tid waits with bad | bad <;> rw [ready] at bad <;> cases bad
  have notRun : ∀ c < cpus, s.schedulerCurrentThread c ≠ 0 → s.schedulerCurrentThread c ≠ n := by
    rintro c other busy rfl
    have ready := (wasReady busy).2
    obtain ⟨-, bad | bad⟩ := placed.current c other busy <;> rw [ready] at bad <;> cases bad
  exact
    { links := links
      onReady := fun t => by
        have split : t ∈ ready.tail ↔ t ∈ ready ∧ t ≠ n := by
          have nodup := placed.links.readyNodup
          cases ready with
          | nil => simp
          | cons x rest =>
              simp only [List.head?_cons, Option.getD_some] at next
              subst next
              rw [List.tail_cons, List.mem_cons]
              constructor
              · intro mem
                refine ⟨.inr mem, ?_⟩
                rintro rfl
                exact (List.nodup_cons.1 nodup).1 mem
              · rintro ⟨same | mem, ne⟩
                · exact absurd same ne
                · exact mem
        rw [split, placed.onReady, state]
        by_cases same : t = n
        · subst same
          rw [Function.update_self]
          simp
        · rw [Function.update_of_ne same]
          simp [same]
      onChain := fun h t => by rw [sleepsOn]; exact placed.onChain h t
      queued := fun t tid => by
        rw [sleepsOn, state]
        intro waits
        have ne : t ≠ n := by
          rintro rfl
          exact waits (awake tid)
        rw [Function.update_of_ne ne]
        exact placed.queued t tid waits
      asleep := fun t tid => by
        rw [sleepsOn, state]
        intro asleep
        have ne : t ≠ n := by
          rintro rfl
          rw [Function.update_self] at asleep
          cases asleep
        rw [Function.update_of_ne ne] at asleep
        exact placed.asleep t tid asleep
      current := fun c other busy => by
        rw [current] at busy ⊢
        by_cases same : c = cpu
        · subst same
          rw [Function.update_self] at busy ⊢
          rw [state, Function.update_self]
          exact ⟨(wasReady busy).1, .inl rfl⟩
        · rw [Function.update_of_ne same] at busy ⊢
          rw [state, Function.update_of_ne (notRun c other busy)]
          exact placed.current c other busy
      unique := fun c first k second busy eq => by
        rw [current] at busy eq
        by_cases same : c = cpu
        · by_cases same' : k = cpu
          · rw [same, same']
          · rw [same, Function.update_self, Function.update_of_ne same'] at eq
            rw [same, Function.update_self] at busy
            exact absurd eq.symm (notRun k second (eq ▸ busy))
        · rw [Function.update_of_ne same] at busy eq
          by_cases same' : k = cpu
          · rw [same', Function.update_self] at eq
            exact absurd eq (notRun c first busy)
          · rw [Function.update_of_ne same'] at eq
            exact placed.unique c first k second busy eq
      running := fun t tid runs => by
        rw [state] at runs
        by_cases same : t = n
        · exact ⟨cpu, on, by rw [current, Function.update_self, same]⟩
        · rw [Function.update_of_ne same] at runs
          obtain ⟨c, other, runsIt⟩ := placed.running t tid runs
          refine ⟨c, other, ?_⟩
          rw [current, Function.update_of_ne, runsIt]
          rintro rfl
          rw [vacant] at runsIt
          have := tid.1
          omega
      idle := by
        rw [state, sleepsOn]
        refine ⟨?_, placed.idle.2⟩
        by_cases same : 0 = n
        · rw [← same, Function.update_self]
          simp
        · rw [Function.update_of_ne same]
          exact placed.idle.1
      unborn := fun t born => by
        obtain ⟨tid, nonready⟩ := placed.unborn t born
        refine ⟨tid, ?_⟩
        have ne : t ≠ n := by
          rintro rfl
          have := (wasReady (by have := tid.1; omega)).2
          rw [nonready] at this
          cases this
        rw [state, Function.update_of_ne ne]
        exact nonready }

/-- The previous thread of a CPU is freed, put to sleep or made ready. -/
theorem previous (placed : Placed cpus s birth ready chain) {cpu : Nat} (on : cpu < cpus) :
    ∃ u ready', schedulePrevious (s.schedulerCurrentThread cpu) s = .returned ((), u) ∧
      Placed cpus { u with
        schedulerCurrentThread := Function.update s.schedulerCurrentThread cpu 0 } birth ready'
        chain ∧
      u.schedulerCurrentThread = s.schedulerCurrentThread ∧ u.sleepsOn = s.sleepsOn ∧
        ∀ x, u.state x = .dying → s.state x = .dying := by
  obtain ⟨p, previous⟩ : ∃ p, p = s.schedulerCurrentThread cpu := ⟨_, rfl⟩
  have outlives : ∀ after : ThreadState, after ≠ .dying → ∀ x,
      (s.setState p after).state x = .dying → s.state x = .dying := by
    intro after still x dies
    simp only [Threads.setState] at dies
    by_cases same : x = p
    · subst same
      rw [Function.update_self] at dies
      exact absurd dies still
    · rwa [Function.update_of_ne same] at dies
  have tid : p ≠ 0 → IsTid p ∧ (s.state p = .running ∨ s.state p = .dying) := fun busy =>
    previous ▸ placed.current cpu on (previous ▸ busy)
  have stays : ∀ after : ThreadState, after ≠ .ready → s.state p ≠ .ready → p ≠ 0 →
      ∀ t, t ∈ ready ↔ IsTid t ∧ (s.setState p after).state t = .ready := by
    intro after notReady wasNot busy t
    rw [placed.onReady]
    simp only [Threads.setState]
    by_cases same : t = p
    · subst same
      rw [Function.update_self]
      simp [notReady, wasNot]
    · rw [Function.update_of_ne same]
  rw [← previous]
  by_cases dies : s.state p = .dying
  · have busy : p ≠ 0 := by
      rintro rfl
      exact placed.idle.1 dies
    refine ⟨s.setState p .free, ready, by rw [schedulePrevious, if_pos dies], ?_, rfl, rfl,
      outlives .free (by decide)⟩
    refine placed.leave on .free (placed.links.of_eq ?_ ?_ ?_ ?_) ?_ ?_ ?_
      (stays .free (by decide) (by rw [dies]; decide) busy) (by decide) ?_
    iterate 4 rfl
    · rw [← previous]
      rfl
    iterate 2 rfl
    rw [← previous]
    intro _
    have awake : s.sleepsOn p = 0 := by
      by_contra waits
      rcases placed.queued p (tid busy).1 waits with bad | bad <;> rw [dies] at bad <;> cases bad
    simp [awake]
  · by_cases waits : s.sleepsOn p ≠ 0
    · have busy : p ≠ 0 := by
        rintro rfl
        exact waits placed.idle.2
      have runs : s.state p = .running := (tid busy).2.resolve_right dies
      refine ⟨s.setState p .sleeping, ready, ?_, ?_, rfl, rfl, outlives .sleeping (by decide)⟩
      · rw [schedulePrevious, if_neg dies, if_pos waits]
      · refine placed.leave on .sleeping (placed.links.of_eq ?_ ?_ ?_ ?_) ?_ ?_ ?_
          (stays .sleeping (by decide) (by rw [runs]; decide) busy) (by decide) ?_
        iterate 4 rfl
        · rw [← previous]
          rfl
        iterate 2 rfl
        rw [← previous]
        intro _
        simpa using waits
    · have awake : s.sleepsOn p = 0 := by
        by_contra this
        exact waits this
      by_cases busy : p = 0
      · refine ⟨s.setState p .ready, ready, ?_, ?_, rfl, rfl, outlives .ready (by decide)⟩
        · rw [schedulePrevious, if_neg dies, if_neg waits, if_neg (by simpa [IDLE_THREAD_TID])]
        · refine placed.leave on .ready (placed.links.of_eq ?_ ?_ ?_ ?_) ?_ ?_ ?_ ?_ (by decide)
            fun bad => absurd (previous ▸ busy) bad
          iterate 4 rfl
          · rw [← previous]
            rfl
          iterate 2 rfl
          · intro t
            rw [placed.onReady]
            simp only [Threads.setState]
            by_cases same : t = p
            · subst same
              simp [IsTid, busy]
            · rw [Function.update_of_ne same]
      · have runs : s.state p = .running := (tid busy).2.resolve_right dies
        have notReady : p ∉ ready := by
          intro mem
          have := ((placed.onReady p).1 mem).2
          rw [runs] at this
          cases this
        obtain ⟨m, ran, added, same, -, -⟩ := placed.links.addToReady (tid busy).1 notReady
          (placed.not_onChain awake)
        have step : schedulePrevious p s = .returned ((), m.setState p .ready) := by
          rw [schedulePrevious, if_neg dies, if_neg waits, if_pos (by simpa [IDLE_THREAD_TID]),
            schedulerAddReady, Prog.bind_of_returned ran]
          rfl
        have state : (m.setState p .ready).state = (s.setState p .ready).state := by
          simp only [Threads.setState, same.state]
        refine ⟨m.setState p .ready, ready ++ [p], step, ?_, same.current, same.sleepsOn,
          fun x => by rw [state]; exact outlives .ready (by decide) x⟩
        refine placed.leave on .ready (added.of_eq ?_ ?_ ?_ ?_) ?_ same.sleepsOn ?_ ?_
          (by decide) ?_
        iterate 4 rfl
        · rw [← previous]
          exact state
        · rfl
        · intro t
          simp only [List.mem_append, List.mem_singleton, placed.onReady, Threads.setState,
            same.state]
          by_cases eq : t = p
          · subst eq
            simp [(tid busy).1]
          · rw [Function.update_of_ne eq]
            simp [eq]
        · rw [← previous]
          intro _
          simp [awake]

/-- **`scheduler_schedule`** keeps every thread in its place.  The chains are untouched. -/
theorem schedule (placed : Placed cpus s birth ready chain) {cpu : Nat} (on : cpu < cpus) :
    ∃ u ready' t, schedulerSchedule cpu s = .returned ((), u) ∧
      Placed cpus u birth ready' chain ∧ u.sleepsOn = s.sleepsOn ∧
      u.schedulerCurrentThread = Function.update s.schedulerCurrentThread cpu t ∧
      u.sleepsOn t = 0 ∧ ∀ x, u.state x = .dying → s.state x = .dying := by
  obtain ⟨m, ready', ran, left, current, sleepsOn, outlives⟩ := placed.previous on
  have links : Links m ready' chain := left.links.of_eq rfl rfl rfl rfl
  have states : ∀ t ∈ ready', m.state t = .ready := fun t mem => ((left.onReady t).1 mem).2
  obtain ⟨v, removed, links', same, -⟩ := links.removeFirst states
  obtain ⟨t, next⟩ : ∃ t, t = ready'.head?.getD 0 := ⟨_, rfl⟩
  refine ⟨{ v.setState t .running with
      schedulerCurrentThread := Function.update v.schedulerCurrentThread cpu t },
    ready'.tail, t, ?_, ?_, ?_, ?_, ?_, ?_⟩
  · rw [schedulerSchedule, Prog.bind_gets_apply, Prog.bind_of_returned ran,
      Prog.bind_of_returned removed, ← next]
    rfl
  · refine left.arrive on (Function.update_self ..) (links'.of_eq ?_ ?_ ?_ ?_) ?_ ?_ ?_
    iterate 4 rfl
    · simp only [Threads.setState, same.state, next]
    · exact same.sleepsOn
    · simp only [same.current, current, next, Function.update_idem]
  · exact same.sleepsOn.trans sleepsOn
  · simp only [same.current, current]
  · have quiet : m.sleepsOn t = 0 := by
      cases ready' with
      | nil =>
          rw [next]
          exact left.idle.2
      | cons x rest =>
          have isFirst : t = x := by simpa using next
          obtain ⟨tid, ready⟩ := (left.onReady x).1 List.mem_cons_self
          rw [isFirst]
          by_contra waits
          rcases left.queued x tid waits with bad | bad <;>
            rw [ready] at bad <;> cases bad
    show v.sleepsOn t = 0
    rw [same.sleepsOn]
    exact quiet
  · intro x dies
    simp only [Threads.setState, same.state] at dies
    apply outlives
    by_cases eq : x = t
    · subst eq
      rw [Function.update_self] at dies
      cases dies
    · rwa [Function.update_of_ne eq] at dies

/-! ## Creating and finishing threads -/

/-- The row found is one that is free. -/
theorem freeTid_found {tid : Nat} (found : freeTid s = some tid) :
    IsTid tid ∧ s.state tid = .free := by
  unfold freeTid at found
  have passed := List.find?_some found
  obtain ⟨i, -, rfl⟩ := List.mem_map.1 (List.mem_of_find?_eq_some found)
  have below : (i + s.nextTid) % CONFIG_MAX_THREADS < 32 := Nat.mod_lt _ (by decide)
  generalize (i + s.nextTid) % CONFIG_MAX_THREADS = tid at passed below
  simp only [Bool.and_eq_true, decide_eq_true_eq, IDLE_THREAD_TID] at passed
  have notIdle := of_decide_eq_true passed.1
  exact ⟨⟨by omega, by omega⟩, passed.2⟩

/-- A change of state of a thread that is on no list and on no CPU, to another such
state. -/
theorem restate (placed : Placed cpus s birth ready chain) {t : Int} {before : ThreadState}
    (after : ThreadState)
    (was : s.state t = before) {u : Threads} {birth' : Int → Birth}
    (links : Links u ready chain) (state : u.state = Function.update s.state t after)
    (sleepsOn : u.sleepsOn = s.sleepsOn)
    (current : u.schedulerCurrentThread = s.schedulerCurrentThread)
    (outside : before = .free ∨ before = .nonready)
    (still : after = .free ∨ after = .nonready)
    (unborn : ∀ x, birth' x ≠ .none → IsTid x ∧ u.state x = .nonready) :
    Placed cpus u birth' ready chain where
  links := links
  onReady := fun x => by
    rw [placed.onReady, state]
    by_cases same : x = t
    · subst same
      rw [Function.update_self, was]
      rcases outside with rfl | rfl <;> rcases still with rfl | rfl <;> simp
    · rw [Function.update_of_ne same]
  onChain := fun h x => by rw [sleepsOn]; exact placed.onChain h x
  queued := fun x tid => by
    rw [sleepsOn, state]
    intro waits
    have states := placed.queued x tid waits
    have ne : x ≠ t := by
      rintro rfl
      rw [was] at states
      rcases outside with rfl | rfl <;> simp at states
    rw [Function.update_of_ne ne]
    exact states
  asleep := fun x tid => by
    rw [sleepsOn, state]
    intro asleep
    have ne : x ≠ t := by
      rintro rfl
      rw [Function.update_self] at asleep
      rcases still with rfl | rfl <;> cases asleep
    rw [Function.update_of_ne ne] at asleep
    exact placed.asleep x tid asleep
  current := fun c other busy => by
    rw [current] at busy ⊢
    have states := placed.current c other busy
    have ne : s.schedulerCurrentThread c ≠ t := by
      intro eq
      rw [eq, was] at states
      rcases outside with rfl | rfl <;> simp at states
    rw [state, Function.update_of_ne ne]
    exact states
  unique := by
    rw [current]
    exact placed.unique
  running := fun x tid runs => by
    rw [state] at runs
    have ne : x ≠ t := by
      rintro rfl
      rw [Function.update_self] at runs
      rcases still with rfl | rfl <;> simp at runs
    rw [Function.update_of_ne ne] at runs
    rw [current]
    exact placed.running x tid runs
  idle := by
    rw [state, sleepsOn]
    refine ⟨?_, placed.idle.2⟩
    by_cases same : 0 = t
    · rw [← same, Function.update_self]
      rcases still with rfl | rfl <;> decide
    · rw [Function.update_of_ne same]
      exact placed.idle.1
  unborn := unborn

/-- `thread_create`: a free row is reserved, or there is none. -/
theorem create (placed : Placed cpus s birth ready chain) :
    ∃ u result, threadCreate s = .returned (result, u) ∧
      Placed cpus u (birthAfter birth result .create) ready chain ∧ u.sleepsOn = s.sleepsOn ∧
      u.schedulerCurrentThread = s.schedulerCurrentThread ∧
        ∀ t, u.state t = .dying → s.state t = .dying := by
  cases found : freeTid s with
  | none =>
      refine ⟨s, -1, by simp [threadCreate, Prog.bind_apply, found], ?_, rfl, rfl, fun _ dies => dies⟩
      simpa [birthAfter] using placed
  | some tid =>
      obtain ⟨isTid, free⟩ := freeTid_found found
      refine ⟨{ s.setState tid .nonready with nextTid := (tid + 1) % CONFIG_MAX_THREADS }, tid,
        by simp [threadCreate, Prog.bind_apply, found], ?_, rfl, rfl, ?_⟩
      · refine placed.restate .nonready free (placed.links.of_eq ?_ ?_ ?_ ?_) ?_ ?_ ?_ (.inl rfl) (.inr rfl) ?_
        iterate 7 rfl
        intro x
        simp only [birthAfter, show (0 : Int) ≤ (tid : Int) by omega, if_true, Threads.setState]
        by_cases same : x = tid
        · subst same
          simp [isTid]
        · rw [Function.update_of_ne same, Function.update_of_ne same]
          exact placed.unborn x
      · intro t dies
        simp only [Threads.setState] at dies
        by_cases same : t = tid
        · subst same
          rw [Function.update_self] at dies
          cases dies
        · rwa [Function.update_of_ne same] at dies

/-- A thread that is neither ready, queued nor running is on no list. -/
theorem off_lists (placed : Placed cpus s birth ready chain) {t : Int}
    (nonready : s.state t = .nonready) :
    t ∉ ready ∧ (∀ h, t ∉ chain h) ∧ (IsTid t → s.sleepsOn t = 0) := by
  have awake : IsTid t → s.sleepsOn t = 0 := by
    intro tid
    by_contra waits
    rcases placed.queued t tid waits with bad | bad <;> rw [nonready] at bad <;> cases bad
  refine ⟨fun mem => ?_, fun h mem => ?_, awake⟩
  · have := ((placed.onReady t).1 mem).2
    rw [nonready] at this
    cases this
  · obtain ⟨tid, waits, -⟩ := (placed.onChain h t).1 mem
    exact waits (awake tid)

/-- The rest of `thread_create`: the new row's fields. -/
theorem init (placed : Placed cpus s birth ready chain) {t : Int} (reserved : birth t = .reserved) :
    ∃ u, threadInit t s = .returned ((), u) ∧
      Placed cpus u (Function.update birth t .initialised) ready chain ∧
      u.sleepsOn = s.sleepsOn ∧ u.schedulerCurrentThread = s.schedulerCurrentThread ∧
        u.state = s.state := by
  obtain ⟨tid, nonready⟩ := placed.unborn t (by rw [reserved]; decide)
  obtain ⟨notReady, notChained, awake⟩ := placed.off_lists nonready
  have sleepsOn : (s.setSleepsOn t 0).sleepsOn = s.sleepsOn := by
    rw [Threads.setSleepsOn, ← awake tid, Function.update_eq_self]
  refine ⟨(s.setSleepsOn t 0).setNext t (-1), rfl, ?_, sleepsOn, rfl, rfl⟩
  have neReady : ∀ x ∈ ready, x ≠ t := by
    rintro x mem rfl
    exact notReady mem
  have neChain : ∀ h, ∀ x ∈ chain h, x ≠ t := by
    rintro h x mem rfl
    exact notChained h mem
  refine placed.restate .nonready nonready ?_ ?_ sleepsOn rfl (.inr rfl) (.inr rfl) ?_
  · exact
      { readyLinked := placed.links.readyLinked.congr fun x mem =>
          Function.update_of_ne (neReady x mem) _ _
        tail := placed.links.tail
        chainLinked := fun h => (placed.links.chainLinked h).congr fun x mem =>
          Function.update_of_ne (neChain h x mem) _ _
        readyNodup := placed.links.readyNodup
        chainNodup := placed.links.chainNodup
        apart := placed.links.apart
        chainsApart := placed.links.chainsApart
        readyTids := placed.links.readyTids
        chainTids := placed.links.chainTids }
  · rw [← nonready, Function.update_eq_self]
    rfl
  · intro x born
    by_cases same : x = t
    · subst same
      exact ⟨tid, nonready⟩
    · rw [Function.update_of_ne same] at born
      exact placed.unborn x born

/-- `thread_run` of a created thread. -/
theorem addReady (placed : Placed cpus s birth ready chain) {t : Int}
    (initialised : birth t = .initialised) :
    ∃ u, threadRun t s = .returned ((), u) ∧
      Placed cpus u (Function.update birth t .none) (ready ++ [t]) chain ∧
      u.sleepsOn = s.sleepsOn ∧ u.schedulerCurrentThread = s.schedulerCurrentThread ∧
        u.state = Function.update s.state t .ready := by
  obtain ⟨tid, nonready⟩ := placed.unborn t (by rw [initialised]; decide)
  obtain ⟨notReady, notChained, awake⟩ := placed.off_lists nonready
  obtain ⟨m, ran, added, same, -, -⟩ := placed.links.addToReady tid notReady notChained
  have state : (m.setState t .ready).state = Function.update s.state t .ready := by
    rw [Threads.setState, same.state]
  refine ⟨m.setState t .ready, ?_, ?_, same.sleepsOn, same.current, state⟩
  · rw [threadRun, schedulerAddReady, Prog.bind_of_returned ran]
    rfl
  · have ne : ∀ x, s.state x ≠ .nonready → x ≠ t := by
      rintro x other rfl
      exact other nonready
    exact
      { links := added.of_eq rfl rfl rfl rfl
        onReady := fun x => by
          rw [List.mem_append, List.mem_singleton, placed.onReady, state]
          by_cases eq : x = t
          · subst eq
            simp [tid]
          · rw [Function.update_of_ne eq]
            simp [eq]
        onChain := fun h x => by
          show _ ↔ _ ∧ m.sleepsOn x ≠ 0 ∧ sleepqHash (m.sleepsOn x) = h
          rw [same.sleepsOn]
          exact placed.onChain h x
        queued := fun x isTid => by
          show m.sleepsOn x ≠ 0 → _
          rw [same.sleepsOn, state]
          intro waits
          have apart : x ≠ t := by
            rintro rfl
            exact waits (awake tid)
          rw [Function.update_of_ne apart]
          exact placed.queued x isTid waits
        asleep := fun x isTid => by
          show _ → m.sleepsOn x ≠ 0
          rw [same.sleepsOn, state]
          intro asleep
          have apart : x ≠ t := by
            rintro rfl
            rw [Function.update_self] at asleep
            cases asleep
          rw [Function.update_of_ne apart] at asleep
          exact placed.asleep x isTid asleep
        current := fun c other => by
          show m.schedulerCurrentThread c ≠ 0 → IsTid (m.schedulerCurrentThread c) ∧
            ((m.setState t .ready).state (m.schedulerCurrentThread c) = .running ∨
              (m.setState t .ready).state (m.schedulerCurrentThread c) = .dying)
          rw [same.current, state]
          intro busy
          have states := placed.current c other busy
          have apart := ne (s.schedulerCurrentThread c) (by
            intro bad
            rw [bad] at states
            simp at states)
          rw [Function.update_of_ne apart]
          exact states
        unique := by
          show ∀ c < cpus, ∀ k < cpus, m.schedulerCurrentThread c ≠ 0 →
            m.schedulerCurrentThread c = m.schedulerCurrentThread k → c = k
          rw [same.current]
          exact placed.unique
        running := fun x isTid runs => by
          rw [state] at runs
          have apart : x ≠ t := by
            rintro rfl
            rw [Function.update_self] at runs
            simp at runs
          rw [Function.update_of_ne apart] at runs
          show ∃ cpu < cpus, m.schedulerCurrentThread cpu = x
          rw [same.current]
          exact placed.running x isTid runs
        idle := by
          have apart : (0 : Int) ≠ t := by
            have := tid.1
            omega
          rw [state, Function.update_of_ne apart]
          show _ ∧ m.sleepsOn 0 = 0
          rw [same.sleepsOn]
          exact placed.idle
        unborn := fun x born => by
          rw [state]
          by_cases eq : x = t
          · subst eq
            rw [Function.update_self] at born
            exact absurd rfl born
          · rw [Function.update_of_ne eq] at born ⊢
            exact placed.unborn x born }

theorem acts_iff {cpu : Nat} :
    s.acts cpu = true ↔ s.schedulerCurrentThread cpu ≠ 0 ∧
      s.state (s.schedulerCurrentThread cpu) = .running ∧
        s.sleepsOn (s.schedulerCurrentThread cpu) = 0 := by
  simp only [Threads.acts, IDLE_THREAD_TID, Bool.and_eq_true, decide_eq_true_eq, and_assoc]
  exact and_congr decide_eq_true_iff Iff.rfl

/-- `thread_finish` by the current thread of a CPU. -/
theorem finish (placed : Placed cpus s birth ready chain) {cpu : Nat} (on : cpu < cpus)
    (acts : s.acts cpu = true) :
    ∃ u, threadFinish cpu s = .returned ((), u) ∧ Placed cpus u birth ready chain ∧
      u.sleepsOn = s.sleepsOn ∧ u.schedulerCurrentThread = s.schedulerCurrentThread ∧
        u.state = Function.update s.state (s.schedulerCurrentThread cpu) .dying := by
  obtain ⟨busy, runs, awake⟩ := acts_iff.1 acts
  refine ⟨s.setState (s.schedulerCurrentThread cpu) .dying, rfl, ?_, rfl, rfl, rfl⟩
  have tid := (placed.current cpu on busy).1
  obtain ⟨p, previous⟩ : ∃ p, p = s.schedulerCurrentThread cpu := ⟨_, rfl⟩
  rw [← previous] at busy runs awake tid ⊢
  have state : (s.setState p .dying).state = Function.update s.state p .dying := rfl
  exact
    { links := placed.links.of_eq rfl rfl rfl rfl
      onReady := fun x => by
        rw [placed.onReady, state]
        by_cases same : x = p
        · subst same
          simp [runs]
        · rw [Function.update_of_ne same]
      onChain := placed.onChain
      queued := fun x isTid waits => by
        have apart : x ≠ p := by
          rintro rfl
          exact waits awake
        rw [state, Function.update_of_ne apart]
        exact placed.queued x isTid waits
      asleep := fun x isTid asleep => by
        have apart : x ≠ p := by
          rintro rfl
          rw [state, Function.update_self] at asleep
          cases asleep
        rw [state, Function.update_of_ne apart] at asleep
        exact placed.asleep x isTid asleep
      current := fun c other busy' => by
        show IsTid (s.schedulerCurrentThread c) ∧
          ((s.setState p .dying).state (s.schedulerCurrentThread c) = .running ∨
            (s.setState p .dying).state (s.schedulerCurrentThread c) = .dying)
        rw [state]
        by_cases same : s.schedulerCurrentThread c = p
        · rw [same, Function.update_self]
          exact ⟨tid, .inr rfl⟩
        · rw [Function.update_of_ne same]
          exact placed.current c other busy'
      unique := placed.unique
      running := fun x isTid states => by
        by_cases same : x = p
        · exact ⟨cpu, on, by rw [same, previous]; rfl⟩
        · rw [state, Function.update_of_ne same] at states
          exact placed.running x isTid states
      idle := by
        have apart : (0 : Int) ≠ p := Ne.symm busy
        rw [state, Function.update_of_ne apart]
        exact placed.idle
      unborn := fun x born => by
        obtain ⟨isTid, nonready⟩ := placed.unborn x born
        have apart : x ≠ p := by
          rintro rfl
          rw [runs] at nonready
          cases nonready
        rw [state, Function.update_of_ne apart]
        exact ⟨isTid, nonready⟩ }

/-! ## Sleeping and waking -/

/-- `sleepq_add` by the current thread of a CPU. -/
theorem sleepqAdd (placed : Placed cpus s birth ready chain) {cpu : Nat} (on : cpu < cpus)
    (acts : s.acts cpu = true) {resource : Word} (real : resource ≠ 0) :
    ∃ u, Kernel.sleepqAdd cpu resource s = .returned ((), u) ∧
      Placed cpus u birth ready (Function.update chain (sleepqHash resource)
        (chain (sleepqHash resource) ++ [s.schedulerCurrentThread cpu])) ∧
      u.sleepsOn = Function.update s.sleepsOn (s.schedulerCurrentThread cpu) resource ∧
      u.schedulerCurrentThread = s.schedulerCurrentThread ∧ u.state = s.state := by
  obtain ⟨busy, runs, awake⟩ := acts_iff.1 acts
  have tid := (placed.current cpu on busy).1
  have notReady : s.schedulerCurrentThread cpu ∉ ready := by
    intro mem
    have := ((placed.onReady _).1 mem).2
    rw [runs] at this
    cases this
  have notChained := placed.not_onChain awake
  obtain ⟨u, ran, links, same⟩ := placed.links.enqueue resource tid notReady notChained
  obtain ⟨p, previous⟩ : ∃ p, p = s.schedulerCurrentThread cpu := ⟨_, rfl⟩
  rw [← previous] at busy runs awake tid links same notChained ⊢
  have sleepsOn : u.sleepsOn = Function.update s.sleepsOn p resource := same.sleepsOn
  have state : u.state = s.state := same.state
  have current : u.schedulerCurrentThread = s.schedulerCurrentThread := same.current
  refine ⟨u, ran, ?_, sleepsOn, current, state⟩
  exact
    { links := links
      onReady := fun x => by rw [state]; exact placed.onReady x
      onChain := fun h x => by
        rw [sleepsOn]
        by_cases eq : x = p
        · subst eq
          rw [Function.update_self]
          by_cases this : h = sleepqHash resource
          · subst this
            rw [Function.update_self]
            exact iff_of_true (by simp) ⟨tid, real, rfl⟩
          · rw [Function.update_of_ne this]
            simp [notChained h, Ne.symm this]
        · rw [Function.update_of_ne eq, ← placed.onChain]
          by_cases this : h = sleepqHash resource
          · subst this
            simp [eq]
          · rw [Function.update_of_ne this]
      queued := fun x isTid waits => by
        rw [state]
        by_cases eq : x = p
        · exact .inr (eq ▸ runs)
        · rw [sleepsOn, Function.update_of_ne eq] at waits
          exact placed.queued x isTid waits
      asleep := fun x isTid asleep => by
        rw [state] at asleep
        have apart : x ≠ p := by
          rintro rfl
          rw [runs] at asleep
          cases asleep
        rw [sleepsOn, Function.update_of_ne apart]
        exact placed.asleep x isTid asleep
      current := by
        rw [current, state]
        exact placed.current
      unique := by
        rw [current]
        exact placed.unique
      running := by
        rw [current, state]
        exact placed.running
      idle := by
        rw [state, sleepsOn, Function.update_of_ne (Ne.symm busy)]
        exact placed.idle
      unborn := by
        rw [state]
        exact placed.unborn }

/-- A wake takes `woken` off one chain; what sleeps becomes ready. -/
theorem awake (placed : Placed cpus s birth ready chain) {u : Threads} {h : Nat}
    {woken l : List Int}
    (links : Links u (ready ++ sleepersIn s woken) (Function.update chain h l))
    (all : WokenAll s u woken) (members : ∀ t ∈ woken, t ∈ chain h)
    (split : ∀ t, t ∈ l ↔ t ∈ chain h ∧ t ∉ woken) :
    Placed cpus u birth (ready ++ sleepersIn s woken) (Function.update chain h l) where
  links := links
  onReady := fun x => by
    rw [List.mem_append, placed.onReady, all.state, sleepersIn, List.mem_filter, decide_eq_true_eq]
    by_cases inside : x ∈ woken
    · have tid := placed.links.chainTids h x (members x inside)
      by_cases sleeping : s.state x = .sleeping
      · simp [inside, sleeping, tid]
      · simp [sleeping]
    · simp [inside]
  onChain := fun k x => by
    rw [all.sleepsOn]
    by_cases inside : x ∈ woken
    · rw [if_pos inside]
      have mem := members x inside
      by_cases same : k = h
      · subst same
        rw [Function.update_self, split]
        simp [inside]
      · rw [Function.update_of_ne same]
        simp [placed.links.chainsApart h k (Ne.symm same) x mem]
    · rw [if_neg inside, ← placed.onChain]
      by_cases same : k = h
      · subst same
        rw [Function.update_self, split]
        simp [inside]
      · rw [Function.update_of_ne same]
  queued := fun x isTid => by
    rw [all.sleepsOn, all.state]
    intro waits
    by_cases inside : x ∈ woken
    · rw [if_pos inside] at waits
      exact absurd rfl waits
    · rw [if_neg inside] at waits
      simpa [inside] using placed.queued x isTid waits
  asleep := fun x isTid => by
    rw [all.sleepsOn, all.state]
    intro asleep
    by_cases inside : x ∈ woken
    · by_cases sleeping : s.state x = .sleeping
      · simp [inside, sleeping] at asleep
      · simp [sleeping] at asleep
    · rw [if_neg inside]
      exact placed.asleep x isTid (by simpa [inside] using asleep)
  current := fun c other busy => by
    rw [all.current] at busy ⊢
    obtain ⟨tid, states⟩ := placed.current c other busy
    refine ⟨tid, ?_⟩
    rw [all.state]
    rcases states with runs | dies
    · simp [runs]
    · simp [dies]
  unique := by
    rw [all.current]
    exact placed.unique
  running := fun x tid runs => by
    rw [all.current]
    apply placed.running x tid
    rw [all.state] at runs
    by_cases both : x ∈ woken ∧ s.state x = .sleeping
    · simp [both] at runs
    · simpa [both] using runs
  idle := by
    rw [all.state, all.sleepsOn]
    have notIn : (0 : Int) ∉ woken := by
      intro mem
      have := (placed.links.chainTids h 0 (members 0 mem)).1
      omega
    simpa [notIn] using placed.idle
  unborn := fun x born => by
    obtain ⟨isTid, nonready⟩ := placed.unborn x born
    refine ⟨isTid, ?_⟩
    rw [all.state]
    simp [nonready]

/-- Taking a part of a chain off it, in the words of `awake`. -/
theorem filter_split {l woken : List Int} (t : Int) :
    t ∈ l.filter (fun x => x ∉ woken) ↔ t ∈ l ∧ t ∉ woken := by
  rw [List.mem_filter, decide_eq_true_eq]

/-- `sleepq_wake` takes the first waiter of the resource off its chain. -/
theorem sleepqWake (placed : Placed cpus s birth ready chain) (resource : Word) :
    ∃ u, Kernel.sleepqWake resource s = .returned ((), u) ∧
      WokenAll s u ((waitersIn s resource (chain (sleepqHash resource))).take 1) ∧
      Placed cpus u birth
        (ready ++ sleepersIn s ((waitersIn s resource (chain (sleepqHash resource))).take 1))
        (Function.update chain (sleepqHash resource) ((chain (sleepqHash resource)).filter
          fun t => t ∉ (waitersIn s resource (chain (sleepqHash resource))).take 1)) := by
  rcases placed.links.sleepqWake_cases resource with
    ⟨missed, ran⟩ | ⟨pre, w, post, u, split, missed, hit, ran, links, woken⟩
  · refine ⟨s, ran, ?_⟩
    rw [(waitersIn_of_missed missed).1]
    refine ⟨.nil s, ?_⟩
    simpa [sleepersIn] using placed
  · have first : (waitersIn s resource (chain (sleepqHash resource))).take 1 = [w] := by
      rw [split, (waitersIn_split post missed hit).1]
      rfl
    have nodup := placed.links.chainNodup (sleepqHash resource)
    have cut : (chain (sleepqHash resource)).filter (fun t => t ∉ [w]) = pre ++ post := by
      rw [split] at nodup ⊢
      have parts := List.nodup_append.1 nodup
      rw [List.filter_append, List.filter_cons_of_neg (by simp), List.filter_eq_self.2,
        List.filter_eq_self.2]
      · intro t mem
        have ne : t ≠ w := by
          rintro rfl
          exact (List.nodup_cons.1 parts.2.1).1 mem
        simpa using ne
      · intro t mem
        have ne : t ≠ w := by
          rintro rfl
          exact parts.2.2 t mem t List.mem_cons_self rfl
        simpa using ne
    have sleepers : ready ++ sleepersIn s [w] =
        if s.state w = .sleeping then ready ++ [w] else ready := by
      unfold sleepersIn
      by_cases sleeping : s.state w = .sleeping
      · rw [if_pos sleeping, List.filter_cons_of_pos (by simpa using sleeping)]
        rfl
      · rw [if_neg sleeping, List.filter_cons_of_neg (by simpa using sleeping), List.filter_nil,
          List.append_nil]
    have all : WokenAll s u [w] := (WokenAll.nil u).cons woken (by simp)
    rw [first]
    refine ⟨u, ran, all, placed.awake (h := sleepqHash resource) ?_ all ?_ filter_split⟩
    · rw [sleepers, cut]
      exact links
    · intro t mem
      rw [List.mem_singleton] at mem
      rw [split, mem]
      simp

/-- `sleepq_wake_all` takes all waiters of the resource off their chain. -/
theorem sleepqWakeAll (placed : Placed cpus s birth ready chain) (resource : Word) :
    ∃ u, Kernel.sleepqWakeAll resource s = .returned ((), u) ∧
      WokenAll s u (waitersIn s resource (chain (sleepqHash resource))) ∧
      Placed cpus u birth
        (ready ++ sleepersIn s (waitersIn s resource (chain (sleepqHash resource))))
        (Function.update chain (sleepqHash resource) ((chain (sleepqHash resource)).filter
          fun t => t ∉ waitersIn s resource (chain (sleepqHash resource)))) := by
  obtain ⟨u, ran, links, all⟩ := placed.links.sleepqWakeAll_runs resource
  have others : othersIn s resource (chain (sleepqHash resource)) =
      (chain (sleepqHash resource)).filter
        fun t => t ∉ waitersIn s resource (chain (sleepqHash resource)) := by
    apply List.filter_congr
    intro t mem
    simp [waitersIn, mem]
  rw [others] at links
  exact ⟨u, ran, all, placed.awake links all (fun t mem => (List.mem_filter.1 mem).1) filter_split⟩

end Placed

/-! ## One step -/

/-- The threads that an action takes out of the sleep queue. -/
def Action.removes (s : Threads) (chain : Nat → List Int) : Action → List Int
  | .wake resource => (waitersIn s resource (chain (sleepqHash resource))).take 1
  | .wakeAll resource => waitersIn s resource (chain (sleepqHash resource))
  | _ => []

/-- The chains after an action. -/
def Action.chains (s : Threads) (chain : Nat → List Int) (a : Action) : Nat → List Int :=
  match a with
  | .sleepqAdd cpu resource => Function.update chain (sleepqHash resource)
      (chain (sleepqHash resource) ++ [s.schedulerCurrentThread cpu])
  | .wake resource | .wakeAll resource => Function.update chain (sleepqHash resource)
      ((chain (sleepqHash resource)).filter fun t => t ∉ a.removes s chain)
  | _ => chain

/-- What the threads wait for after an action, before `removes` is taken off. -/
def Action.waits (s : Threads) : Action → Int → Word
  | .sleepqAdd cpu resource => Function.update s.sleepsOn (s.schedulerCurrentThread cpu) resource
  | _ => s.sleepsOn

/-- What a step does to the columns, besides keeping every thread in its place. -/
structure Effect (s u : Threads) (a : Action) (ready ready' removed : List Int) : Prop where
  sleepsOn : ∀ t, u.sleepsOn t = if t ∈ removed then 0 else a.waits s t
  current : ∀ c, a ≠ .schedule c → u.schedulerCurrentThread c = s.schedulerCurrentThread c
  arrives : ∀ c, a = .schedule c → u.sleepsOn (u.schedulerCurrentThread c) = 0
  dies : ∀ t, u.state t = .dying → s.state t = .dying ∨
    ∃ c, a = .finish c ∧ t = s.schedulerCurrentThread c
  wakes : ∀ resource, a = .wake resource ∨ a = .wakeAll resource →
    ready' = ready ++ sleepersIn s removed ∧
      ∀ t, u.state t = if t ∈ removed ∧ s.state t = .sleeping then .ready else s.state t

/-- A wake is a step. -/
theorem WokenAll.effect {s u : Threads} {removed ready : List Int} {a : Action}
    (all : WokenAll s u removed) (waits : a.waits s = s.sleepsOn) (still : ∀ c, a ≠ .schedule c) :
    Effect s u a ready (ready ++ sleepersIn s removed) removed where
  sleepsOn := by rw [waits]; exact all.sleepsOn
  current := fun c _ => by rw [all.current]
  arrives := fun c is => absurd is (still c)
  dies := fun t dies => by
    rw [all.state] at dies
    split at dies
    · cases dies
    · exact .inl dies
  wakes := fun _ _ => ⟨rfl, all.state⟩

/-- **Every critical section** runs to its end and keeps every thread in its place. -/
theorem Placed.step {cpus : Nat} {m : Machine} {ready : List Int} {chain : Nat → List Int}
    (placed : Placed cpus m.threads m.birth ready chain) {a : Action}
    (allowed : m.allows cpus a = true) :
    ∃ result u ready', a.run m.threads = .returned (result, u) ∧
      Placed cpus u (birthAfter m.birth result a) ready' (a.chains m.threads chain) ∧
      Effect m.threads u a ready ready' (a.removes m.threads chain) := by
  have plain : ∀ {u : Threads} {ready' : List Int}, u.sleepsOn = a.waits m.threads →
      (∀ c, a ≠ .schedule c → u.schedulerCurrentThread c = m.threads.schedulerCurrentThread c) →
      (∀ c, a = .schedule c → u.sleepsOn (u.schedulerCurrentThread c) = 0) →
      (∀ t, u.state t = .dying → m.threads.state t = .dying ∨
        ∃ c, a = .finish c ∧ t = m.threads.schedulerCurrentThread c) →
      (∀ resource, a ≠ .wake resource ∧ a ≠ .wakeAll resource) →
      Effect m.threads u a ready ready' [] := by
    intro u ready' sleepsOn current arrives dies noWake
    exact
      { sleepsOn := fun t => by rw [sleepsOn, if_neg (List.not_mem_nil)]
        current := current
        arrives := arrives
        dies := dies
        wakes := fun r is => absurd is (by simp [noWake r]) }
  cases a with
  | schedule cpu =>
      have on : cpu < cpus := by simpa [Machine.allows] using allowed
      obtain ⟨u, ready', t, ran, placed', sleepsOn, current, awake, outlives⟩ :=
        placed.schedule on
      refine ⟨0, u, ready', ?_, placed', plain sleepsOn ?_ ?_ ?_ ?_⟩
      · rw [Action.run, Prog.bind_of_returned ran]
        rfl
      · intro c other
        rw [current, Function.update_of_ne]
        rintro rfl
        exact other rfl
      · rintro c same
        cases same
        rw [current, Function.update_self, awake]
      · exact fun x dies => .inl (outlives x dies)
      · simp
  | create =>
      obtain ⟨u, result, ran, placed', sleepsOn, current, outlives⟩ := placed.create
      refine ⟨result, u, ready, ran, placed', plain sleepsOn ?_ ?_ ?_ ?_⟩
      · exact fun c _ => by rw [current]
      · simp
      · exact fun x dies => .inl (outlives x dies)
      · simp
  | init t =>
      have reserved : m.birth t = .reserved := by simpa [Machine.allows] using allowed
      obtain ⟨u, ran, placed', sleepsOn, current, state⟩ := placed.init reserved
      refine ⟨0, u, ready, ?_, placed', plain sleepsOn ?_ ?_ ?_ ?_⟩
      · rw [Action.run, Prog.bind_of_returned ran]
        rfl
      · exact fun c _ => by rw [current]
      · simp
      · exact fun x dies => .inl (by rw [← state]; exact dies)
      · simp
  | addReady t =>
      have initialised : m.birth t = .initialised := by simpa [Machine.allows] using allowed
      obtain ⟨u, ran, placed', sleepsOn, current, state⟩ := placed.addReady initialised
      refine ⟨0, u, ready ++ [t], ?_, placed', plain sleepsOn ?_ ?_ ?_ ?_⟩
      · rw [Action.run, Prog.bind_of_returned ran]
        rfl
      · exact fun c _ => by rw [current]
      · simp
      · intro x dies
        rw [state] at dies
        by_cases same : x = t
        · rw [same, Function.update_self] at dies
          cases dies
        · rw [Function.update_of_ne same] at dies
          exact .inl dies
      · simp
  | finish cpu =>
      simp only [Machine.allows, Bool.and_eq_true, decide_eq_true_eq] at allowed
      obtain ⟨u, ran, placed', sleepsOn, current, state⟩ := placed.finish allowed.1 allowed.2
      refine ⟨0, u, ready, ?_, placed', plain sleepsOn ?_ ?_ ?_ ?_⟩
      · rw [Action.run, Prog.bind_of_returned ran]
        rfl
      · exact fun c _ => by rw [current]
      · simp
      · intro x dies
        rw [state] at dies
        by_cases same : x = m.threads.schedulerCurrentThread cpu
        · exact .inr ⟨cpu, rfl, same⟩
        · rw [Function.update_of_ne same] at dies
          exact .inl dies
      · simp
  | sleepqAdd cpu resource =>
      simp only [Machine.allows, Bool.and_eq_true, decide_eq_true_eq] at allowed
      obtain ⟨u, ran, placed', sleepsOn, current, state⟩ :=
        placed.sleepqAdd allowed.1.1 allowed.1.2 allowed.2
      refine ⟨0, u, ready, ?_, placed', plain sleepsOn ?_ ?_ ?_ ?_⟩
      · rw [Action.run, Prog.bind_of_returned ran]
        rfl
      · exact fun c _ => by rw [current]
      · simp
      · exact fun x dies => .inl (by rw [← state]; exact dies)
      · simp
  | wake resource =>
      obtain ⟨u, ran, all, placed'⟩ := placed.sleepqWake resource
      refine ⟨0, u, _, ?_, placed', all.effect rfl (by simp)⟩
      rw [Action.run, Prog.bind_of_returned ran]
      rfl
  | wakeAll resource =>
      obtain ⟨u, ran, all, placed'⟩ := placed.sleepqWakeAll resource
      refine ⟨0, u, _, ?_, placed', all.effect rfl (by simp)⟩
      rw [Action.run, Prog.bind_of_returned ran]
      rfl

end Buenos.Kernel
