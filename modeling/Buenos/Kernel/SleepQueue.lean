/-
# Kernel.SleepQueue -- what the sleep queue is for

Seen from outside, the hash table of chains is a map from resources to FIFO queues of
threads.  `queueOf` reads the queue of a resource off the table; `Queues.after` says what
an action does to the map.  `sleepq_refines` is the simulation: in every interleaving the
queue of each resource moves as the map does, whatever else hashes to its slot.

`threads_in_place` is the placement invariant of all runs, in the words of the table.
-/
import Buenos.Kernel.Interleaving

namespace Buenos.Kernel

open Buenos.Lib Buenos.Theory

set_option autoImplicit false

/-! ## Every run -/

/-- No reachable machine has panicked, and every thread is in its place. -/
theorem placed_reachable {cpus : Nat} {s : Machine} (reached : (threadSystem cpus).Reachable s) :
    s.panicked = false ∧ ∃ ready chain, Placed cpus s.threads s.birth ready chain := by
  induction reached with
  | start first =>
      cases first
      exact ⟨rfl, [], fun _ => [], placed_init cpus⟩
  | @step s t a _ _ taken ih =>
    obtain ⟨calm, ready, chain, placed⟩ := ih
    simp only [threadSystem, calm, Bool.false_or, Bool.not_eq_true'] at taken
    split at taken
    · cases taken
    · rename_i refused
      have allowed : s.allows cpus a = true := by simpa using refused
      obtain ⟨result, u, ready', ran, placed', -⟩ := placed.step allowed
      rw [ran] at taken
      cases taken
      exact ⟨rfl, ready', _, placed'⟩

/-- **What a step of a run does.** -/
theorem step_effect {cpus : Nat} {s t : Machine} {a : Action}
    (reached : (threadSystem cpus).Reachable s) (taken : (threadSystem cpus).step s a = some t) :
    s.allows cpus a = true ∧ t.panicked = false ∧ ∃ ready chain ready',
      Placed cpus s.threads s.birth ready chain ∧
      Placed cpus t.threads t.birth ready' (a.chains s.threads chain) ∧
      Effect s.threads t.threads a ready ready' (a.removes s.threads chain) := by
  obtain ⟨calm, ready, chain, placed⟩ := placed_reachable reached
  simp only [threadSystem, calm, Bool.false_or, Bool.not_eq_true'] at taken
  split at taken
  · cases taken
  · rename_i refused
    have allowed : s.allows cpus a = true := by simpa using refused
    obtain ⟨result, u, ready', ran, placed', effect⟩ := placed.step allowed
    rw [ran] at taken
    cases taken
    exact ⟨allowed, rfl, ready, chain, ready', placed, placed', effect⟩

/-- A step that is allowed is taken. -/
theorem step_taken {cpus : Nat} {s : Machine} {a : Action}
    (reached : (threadSystem cpus).Reachable s) (allowed : s.allows cpus a = true) :
    ∃ t, (threadSystem cpus).step s a = some t := by
  obtain ⟨calm, ready, chain, placed⟩ := placed_reachable reached
  obtain ⟨result, u, ready', ran, -⟩ := placed.step allowed
  refine ⟨{ threads := u, birth := birthAfter s.birth result a, panicked := false }, ?_⟩
  simp [threadSystem, calm, allowed, ran]

/-- **Thread placement.**  In every run on any number of CPUs no assertion fails and no
walk along the links is endless; the links carry the ready list and the chains, which are
finite, end in a negative link and share no thread; and a thread other than the idle
thread is RUNNING or DYING exactly when it is the current thread of exactly one CPU, on
the ready list exactly when it is READY, and on a chain, that of its resource, exactly
when `sleeps_on` is set. -/
theorem threads_in_place (cpus : Nat) {s : Machine}
    (reached : (threadSystem cpus).Reachable s) :
    s.panicked = false ∧ ∃ (ready : List Int) (chain : Nat → List Int),
      Linked s.threads.next s.threads.head ready ∧ ready.Nodup ∧
      (∀ h, Linked s.threads.next (s.threads.sleepqHashtable h) (chain h) ∧ (chain h).Nodup) ∧
      (∀ h, ∀ t ∈ chain h, t ∉ ready ∧ ∀ k, k ≠ h → t ∉ chain k) ∧
      (∀ t, t ∈ ready ∨ (∃ h, t ∈ chain h) → IsTid t) ∧
      ∀ t, IsTid t →
        ((s.threads.state t = .running ∨ s.threads.state t = .dying) ↔
          ∃! cpu, cpu < cpus ∧ s.threads.schedulerCurrentThread cpu = t) ∧
        (t ∈ ready ↔ s.threads.state t = .ready) ∧
        (∀ h, t ∈ chain h ↔
          s.threads.sleepsOn t ≠ 0 ∧ sleepqHash (s.threads.sleepsOn t) = h) ∧
        (s.threads.sleepsOn t ≠ 0 →
          s.threads.state t = .sleeping ∨ s.threads.state t = .running) ∧
        (s.threads.state t = .sleeping → s.threads.sleepsOn t ≠ 0) := by
  obtain ⟨calm, ready, chain, placed⟩ := placed_reachable reached
  have links := placed.links
  refine ⟨calm, ready, chain, links.readyLinked, links.readyNodup,
    fun h => ⟨links.chainLinked h, links.chainNodup h⟩, ?_, ?_, ?_⟩
  · intro h t mem
    exact ⟨links.apart h t mem, fun k ne => links.chainsApart h k (Ne.symm ne) t mem⟩
  · rintro t (mem | ⟨h, mem⟩)
    · exact links.readyTids t mem
    · exact links.chainTids h t mem
  · intro t tid
    have busy : t ≠ 0 := by
      have := tid.1
      omega
    refine ⟨⟨?_, ?_⟩, ?_, ?_, placed.queued t tid, placed.asleep t tid⟩
    · intro runs
      obtain ⟨cpu, on, current⟩ := placed.running t tid runs
      refine ⟨cpu, ⟨on, current⟩, ?_⟩
      rintro c ⟨other, same⟩
      exact placed.unique c other cpu on (by rw [same]; exact busy) (by rw [same, current])
    · rintro ⟨cpu, ⟨on, current⟩, -⟩
      have here := placed.current cpu on (by rw [current]; exact busy)
      rw [current] at here
      exact here.2
    · rw [placed.onReady]
      simp [tid]
    · intro h
      rw [placed.onChain]
      simp [tid]

/-- A thread is created, runs, queues itself and is switched out. -/
theorem threads_in_place_asleep :
    ∃ s, (threadSystem 1).exec Machine.boot
        [.create, .init 1, .addReady 1, .schedule 0, .sleepqAdd 0 5, .schedule 0] = some s ∧
      s.panicked = false := by
  obtain ⟨s, ran⟩ := Option.isSome_iff_exists.1 (show ((threadSystem 1).exec Machine.boot
    [.create, .init 1, .addReady 1, .schedule 0, .sleepqAdd 0 5, .schedule 0]).isSome = true by
      decide)
  exact ⟨s, ran, (threads_in_place 1 ((System.Reachable.start rfl).exec ran)).1⟩

/-! ## The queues -/

/-- The ready list, read off the table. -/
def readyList (s : Threads) : List Int := members s.next CONFIG_MAX_THREADS s.head

/-- The threads that wait for `resource`, longest-waiting first, read off the table. -/
def queueOf (s : Threads) (resource : Word) : List Int :=
  waitersIn s resource
    (members s.next CONFIG_MAX_THREADS (s.sleepqHashtable (sleepqHash resource)))

/-- A FIFO queue of threads for every resource. -/
abbrev Queues := Word → List Int

/-- What the map of queues does when the threads take an action. -/
def Queues.after (s : Threads) (q : Queues) : Action → Queues
  | .sleepqAdd cpu resource =>
      Function.update q resource (q resource ++ [s.schedulerCurrentThread cpu])
  | .wake resource => Function.update q resource (q resource).tail
  | .wakeAll resource => Function.update q resource []
  | _ => q

/-- The threads that the map of queues gives up. -/
def Queues.gives (q : Queues) : Action → List Int
  | .wake resource => (q resource).take 1
  | .wakeAll resource => q resource
  | _ => []

namespace Placed

variable {cpus : Nat} {s : Threads} {birth : Int → Birth} {ready : List Int}
  {chain : Nat → List Int}

theorem readyList_eq (placed : Placed cpus s birth ready chain) : readyList s = ready :=
  members_of_linked placed.links.readyLinked
    (length_lt_of_nodup placed.links.readyNodup placed.links.readyTids).le

theorem queueOf_eq (placed : Placed cpus s birth ready chain) (resource : Word) :
    queueOf s resource = waitersIn s resource (chain (sleepqHash resource)) := by
  have short := length_lt_of_nodup (placed.links.chainNodup (sleepqHash resource))
    (placed.links.chainTids (sleepqHash resource))
  rw [queueOf, members_of_linked (placed.links.chainLinked _) short.le]

theorem mem_queueOf (placed : Placed cpus s birth ready chain) {resource : Word} {t : Int} :
    t ∈ queueOf s resource ↔ IsTid t ∧ s.sleepsOn t = resource ∧ resource ≠ 0 := by
  rw [placed.queueOf_eq, waitersIn, List.mem_filter, placed.onChain, decide_eq_true_eq]
  constructor
  · rintro ⟨⟨tid, waits, -⟩, same⟩
    exact ⟨tid, same, same ▸ waits⟩
  · rintro ⟨tid, same, real⟩
    subst same
    exact ⟨⟨tid, real, rfl⟩, rfl⟩

theorem removes_eq (placed : Placed cpus s birth ready chain) (a : Action) :
    a.removes s chain = Queues.gives (queueOf s) a := by
  cases a with
  | wake resource => simp only [Action.removes, Queues.gives, placed.queueOf_eq]
  | wakeAll resource => simp only [Action.removes, Queues.gives, placed.queueOf_eq]
  | schedule | create | init | addReady | finish | sleepqAdd => rfl

/-- Taking waiters of one resource off their chain leaves the queues of the others. -/
theorem queueOf_removed (placed : Placed cpus s birth ready chain) {u : Threads} {ready' : List Int}
    {birth' : Int → Birth} {resource : Word} {removed : List Int}
    (placed' : Placed cpus u birth' ready' (Function.update chain (sleepqHash resource)
      ((chain (sleepqHash resource)).filter fun t => t ∉ removed)))
    (sleepsOn : ∀ t, u.sleepsOn t = if t ∈ removed then 0 else s.sleepsOn t)
    (members : ∀ t ∈ removed, t ∈ queueOf s resource) :
    queueOf u = Function.update (queueOf s) resource
      ((queueOf s resource).filter fun t => t ∉ removed) := by
  funext other
  rw [placed'.queueOf_eq]
  by_cases same : other = resource
  · subst same
    rw [Function.update_self, Function.update_self, placed.queueOf_eq]
    unfold waitersIn
    rw [List.filter_filter, List.filter_filter]
    apply List.filter_congr
    intro t _
    by_cases inside : t ∈ removed
    · simp [inside]
    · simp [inside, sleepsOn]
  · rw [Function.update_of_ne same]
    by_cases null : other = 0
    · -- nobody queues on NULL
      subst null
      have before : queueOf s 0 = [] := List.eq_nil_iff_forall_not_mem.2 fun t mem =>
        (placed.mem_queueOf.1 mem).2.2 rfl
      have after : queueOf u 0 = [] := List.eq_nil_iff_forall_not_mem.2 fun t mem =>
        (placed'.mem_queueOf.1 mem).2.2 rfl
      rw [← placed'.queueOf_eq, before, after]
    · have apart : ∀ t ∈ removed, s.sleepsOn t ≠ other := by
        intro t mem waits
        exact same (waits ▸ (placed.mem_queueOf.1 (members t mem)).2.1)
      have kept : ∀ t, u.sleepsOn t = other ↔ s.sleepsOn t = other := by
        intro t
        rw [sleepsOn]
        by_cases inside : t ∈ removed
        · rw [if_pos inside]
          exact iff_of_false (Ne.symm null) (apart t inside)
        · rw [if_neg inside]
      rw [placed.queueOf_eq]
      unfold waitersIn
      simp only [kept]
      by_cases collides : sleepqHash other = sleepqHash resource
      · rw [collides, Function.update_self, List.filter_filter]
        apply List.filter_congr
        intro t _
        by_cases waits : s.sleepsOn t = other
        · have stays : t ∉ removed := fun inside => apart t inside waits
          simp [waits, stays]
        · simp [waits]
      · rw [Function.update_of_ne collides]

/-- Queueing a thread that waits for nothing. -/
theorem queueOf_added (placed : Placed cpus s birth ready chain) {u : Threads} {ready' : List Int}
    {birth' : Int → Birth} {resource : Word} {t : Int}
    (placed' : Placed cpus u birth' ready' (Function.update chain (sleepqHash resource)
      (chain (sleepqHash resource) ++ [t])))
    (sleepsOn : u.sleepsOn = Function.update s.sleepsOn t resource) (awake : s.sleepsOn t = 0) :
    queueOf u = Function.update (queueOf s) resource (queueOf s resource ++ [t]) := by
  funext other
  have kept : ∀ h, ∀ x ∈ chain h, u.sleepsOn x = s.sleepsOn x := by
    intro h x mem
    rw [sleepsOn, Function.update_of_ne]
    rintro rfl
    exact placed.not_onChain awake h mem
  have old : waitersIn u other (chain (sleepqHash other)) = queueOf s other := by
    rw [placed.queueOf_eq]
    exact List.filter_congr fun x mem => by rw [kept _ x mem]
  rw [placed'.queueOf_eq]
  by_cases same : other = resource
  · subst same
    rw [Function.update_self, Function.update_self, ← old]
    unfold waitersIn
    rw [List.filter_append, List.filter_cons_of_pos (by simp [sleepsOn]), List.filter_nil]
  · rw [Function.update_of_ne same]
    by_cases collides : sleepqHash other = sleepqHash resource
    · have fresh : ¬ u.sleepsOn t = other := by
        rw [sleepsOn, Function.update_self]
        exact Ne.symm same
      rw [← old, collides, Function.update_self]
      unfold waitersIn
      rw [List.filter_append, List.filter_cons_of_neg (by simpa using fresh), List.filter_nil,
        List.append_nil]
    · rw [Function.update_of_ne collides, old]

/-- Nothing changes for the queues. -/
theorem queueOf_kept (placed : Placed cpus s birth ready chain) {u : Threads}
    {birth' : Int → Birth} {ready' : List Int} (placed' : Placed cpus u birth' ready' chain)
    (sleepsOn : u.sleepsOn = s.sleepsOn) : queueOf u = queueOf s := by
  funext other
  rw [placed.queueOf_eq, placed'.queueOf_eq]
  simp only [waitersIn, sleepsOn]

end Placed

/-- A list without its first member. -/
theorem without_first {l : List Int} (nodup : l.Nodup) :
    l.filter (fun x => x ∉ l.take 1) = l.tail := by
  cases l with
  | nil => rfl
  | cons w rest =>
      rw [List.filter_cons_of_neg (by simp), List.tail_cons, List.filter_eq_self]
      intro x mem
      have ne : x ≠ w := by
        rintro rfl
        exact (List.nodup_cons.1 nodup).1 mem
      simpa using ne

/-- The queues after a step are those of the map. -/
theorem queueOf_after {cpus : Nat} {s t : Machine} {a : Action} {ready ready' : List Int}
    {chain : Nat → List Int} (allowed : s.allows cpus a = true)
    (placed : Placed cpus s.threads s.birth ready chain)
    (placed' : Placed cpus t.threads t.birth ready' (a.chains s.threads chain))
    (effect : Effect s.threads t.threads a ready ready' (Queues.gives (queueOf s.threads) a)) :
    queueOf t.threads = Queues.after s.threads (queueOf s.threads) a := by
  have same : (∀ x, t.threads.sleepsOn x = s.threads.sleepsOn x) →
      a.chains s.threads chain = chain → queueOf t.threads = queueOf s.threads := by
    intro sleepsOn chains
    rw [chains] at placed'
    exact placed.queueOf_kept placed' (funext sleepsOn)
  have removed := placed.removes_eq a
  have nodup : ∀ resource, (queueOf s.threads resource).Nodup := fun resource => by
    rw [placed.queueOf_eq]
    exact (placed.links.chainNodup _).filter _
  cases a with
  | schedule | create | init | addReady | finish =>
      exact same (fun x => by simpa [Queues.gives, Action.waits] using effect.sleepsOn x) rfl
  | sleepqAdd cpu resource =>
      simp only [Machine.allows, Bool.and_eq_true, decide_eq_true_eq] at allowed
      have awake := (Placed.acts_iff.1 allowed.1.2).2.2
      refine placed.queueOf_added placed' ?_ awake
      funext x
      simpa [Queues.gives, Action.waits] using effect.sleepsOn x
  | wake resource =>
      simp only [Action.chains, removed] at placed'
      rw [placed.queueOf_removed placed' effect.sleepsOn fun x mem => List.mem_of_mem_take mem]
      have rest : (queueOf s.threads resource).filter
          (fun x => x ∉ (queueOf s.threads resource).take 1) = (queueOf s.threads resource).tail :=
        without_first (nodup resource)
      rw [Queues.gives, rest]
      rfl
  | wakeAll resource =>
      simp only [Action.chains, removed] at placed'
      rw [placed.queueOf_removed placed' effect.sleepsOn fun x mem => mem]
      have none : (queueOf s.threads resource).filter
          (fun x => x ∉ queueOf s.threads resource) = [] := by
        rw [List.filter_eq_nil_iff]
        intro x mem
        simp [mem]
      rw [Queues.gives, none]
      rfl

/-- **The sleep queue refines a map from resources to FIFO queues.**  It starts empty.  In
every interleaving `sleepq_add` appends the current thread to the queue of its resource,
`sleepq_wake` takes the longest-waiting thread off it, `sleepq_wake_all` all of them, and
nothing else changes any queue, whatever else hashes to the same slot.  The threads taken
off wait for nothing any more; those that slept, and no others, become READY, and they are
appended to the ready list in the order in which they waited. -/
theorem sleepq_refines (cpus : Nat) :
    (∀ s, (threadSystem cpus).initial s → queueOf s.threads = fun _ => []) ∧
    ∀ (s t : Machine) (a : Action), (threadSystem cpus).Reachable s →
      (threadSystem cpus).step s a = some t →
        t.panicked = false ∧
        queueOf t.threads = Queues.after s.threads (queueOf s.threads) a ∧
        (∀ x ∈ Queues.gives (queueOf s.threads) a, t.threads.sleepsOn x = 0) ∧
        ((∃ resource, a = .wake resource ∨ a = .wakeAll resource) →
          (∀ x, t.threads.state x =
            if x ∈ Queues.gives (queueOf s.threads) a ∧ s.threads.state x = .sleeping then .ready
            else s.threads.state x) ∧
          readyList t.threads = readyList s.threads ++
            (Queues.gives (queueOf s.threads) a).filter fun x => s.threads.state x = .sleeping) := by
  refine ⟨?_, ?_⟩
  · rintro s rfl
    funext resource
    rw [Machine.boot, (placed_init cpus).queueOf_eq]
    rfl
  · intro s t a reached taken
    obtain ⟨allowed, calm, ready, chain, ready', placed, placed', effect⟩ :=
      step_effect reached taken
    rw [placed.removes_eq] at effect
    refine ⟨calm, queueOf_after allowed placed placed' effect, ?_, ?_⟩
    · intro x mem
      rw [effect.sleepsOn, if_pos mem]
    · rintro ⟨resource, wakes⟩
      obtain ⟨appended, states⟩ := effect.wakes resource wakes
      refine ⟨states, ?_⟩
      rw [placed.readyList_eq, placed'.readyList_eq, appended]
      rfl

/-- Two resources in one slot: waking the second leaves the first one's thread alone. -/
theorem sleepq_refines_collision :
    ∃ s t, (threadSystem 2).exec Machine.boot
        [.create, .init 1, .addReady 1, .create, .init 2, .addReady 2, .schedule 0, .schedule 1,
          .sleepqAdd 0 5, .sleepqAdd 1 132, .schedule 1] = some s ∧
      (threadSystem 2).step s (.wake 132) = some t ∧
      queueOf s.threads 5 = [1] ∧ queueOf s.threads 132 = [2] ∧
      queueOf t.threads 5 = [1] ∧ queueOf t.threads 132 = [] := by
  have ran : ((threadSystem 2).exec Machine.boot
        [.create, .init 1, .addReady 1, .create, .init 2, .addReady 2, .schedule 0, .schedule 1,
          .sleepqAdd 0 5, .sleepqAdd 1 132, .schedule 1]).any
      (fun s => queueOf s.threads 5 = [1] ∧ queueOf s.threads 132 = [2]) = true := by decide
  obtain ⟨s, reached, queues⟩ := (Option.any_eq_true _ _).1 ran
  obtain ⟨first, second⟩ := of_decide_eq_true queues
  have run := (System.Reachable.start rfl).exec reached
  obtain ⟨t, taken⟩ := step_taken run (a := .wake 132) rfl
  have after := ((sleepq_refines 2).2 s t (.wake 132) run taken).2.1
  refine ⟨s, t, reached, taken, first, second, ?_, ?_⟩
  · rw [after, Queues.after, Function.update_of_ne (by decide), first]
  · rw [after, Queues.after, Function.update_self, second]
    rfl

/-! ## What a step leaves alone -/

/-- The CPU whose current thread takes an action. -/
def Action.cpu : Action → Option Nat
  | .schedule cpu | .finish cpu | .sleepqAdd cpu _ => some cpu
  | _ => none

/-- The resource that an action names. -/
def Action.resource : Action → Option Word
  | .sleepqAdd _ resource | .wake resource | .wakeAll resource => some resource
  | _ => none

theorem Queues.after_other (s : Threads) (q : Queues) {a : Action} {resource : Word}
    (other : a.resource ≠ some resource) : Queues.after s q a resource = q resource := by
  cases a with
  | sleepqAdd | wake | wakeAll =>
      simp only [Action.resource, ne_eq, Option.some.injEq] at other
      exact Function.update_of_ne (Ne.symm other) _ _
  | schedule | create | init | addReady | finish => rfl

section Steps

variable {cpus : Nat} {s t : Machine} {a : Action}

theorem mem_queueOf (reached : (threadSystem cpus).Reachable s) {resource : Word} {x : Int} :
    x ∈ queueOf s.threads resource ↔
      IsTid x ∧ s.threads.sleepsOn x = resource ∧ resource ≠ 0 := by
  obtain ⟨-, ready, chain, placed⟩ := placed_reachable reached
  exact placed.mem_queueOf

theorem queueOf_nodup (reached : (threadSystem cpus).Reachable s) (resource : Word) :
    (queueOf s.threads resource).Nodup := by
  obtain ⟨-, ready, chain, placed⟩ := placed_reachable reached
  rw [placed.queueOf_eq]
  exact (placed.links.chainNodup _).filter _

/-- The current thread of a CPU that can act is not the idle thread. -/
theorem isTid_of_acts (reached : (threadSystem cpus).Reachable s) {cpu : Nat} (on : cpu < cpus)
    (acts : s.threads.acts cpu = true) : IsTid (s.threads.schedulerCurrentThread cpu) := by
  obtain ⟨-, ready, chain, placed⟩ := placed_reachable reached
  exact (placed.current cpu on (Placed.acts_iff.1 acts).1).1

/-- The queues move as the map does. -/
theorem queueOf_step (reached : (threadSystem cpus).Reachable s)
    (taken : (threadSystem cpus).step s a = some t) :
    queueOf t.threads = Queues.after s.threads (queueOf s.threads) a := by
  obtain ⟨allowed, -, ready, chain, ready', placed, placed', effect⟩ := step_effect reached taken
  rw [placed.removes_eq] at effect
  exact queueOf_after allowed placed placed' effect

/-- Only a switch changes the current thread of a CPU. -/
theorem current_stays (reached : (threadSystem cpus).Reachable s)
    (taken : (threadSystem cpus).step s a = some t) {cpu : Nat} (other : a ≠ .schedule cpu) :
    t.threads.schedulerCurrentThread cpu = s.threads.schedulerCurrentThread cpu := by
  obtain ⟨-, -, ready, chain, ready', -, -, effect⟩ := step_effect reached taken
  exact effect.current cpu other

/-- A thread that is queued after a step was queued before, or has just queued itself. -/
theorem waits_of_queued (reached : (threadSystem cpus).Reachable s)
    (taken : (threadSystem cpus).step s a = some t) {x : Int} (waits : t.threads.sleepsOn x ≠ 0) :
    t.threads.sleepsOn x = a.waits s.threads x := by
  obtain ⟨-, -, ready, chain, ready', placed, placed', effect⟩ := step_effect reached taken
  rw [effect.sleepsOn] at waits ⊢
  by_cases removed : x ∈ a.removes s.threads chain
  · rw [if_pos removed] at waits
    exact absurd rfl waits
  · rw [if_neg removed]

/-- A sleeping thread sleeps on until it is woken. -/
theorem sleeping_stays (reached : (threadSystem cpus).Reachable s)
    (taken : (threadSystem cpus).step s a = some t) {x : Int} (tid : IsTid x)
    (sleeping : s.threads.state x = .sleeping) (waits : t.threads.sleepsOn x ≠ 0) :
    t.threads.state x = .sleeping := by
  obtain ⟨-, -, ready, chain, ready', placed, placed', effect⟩ := step_effect reached taken
  apply (placed'.queued x tid waits).resolve_right
  intro runs
  obtain ⟨c, on, current⟩ := placed'.running x tid (.inl runs)
  by_cases switched : a = .schedule c
  · have awake := effect.arrives c switched
    rw [current] at awake
    exact waits awake
  · rw [effect.current c switched] at current
    have busy : s.threads.schedulerCurrentThread c ≠ 0 := by
      rw [current]
      have := tid.1
      omega
    obtain ⟨-, bad | bad⟩ := placed.current c on busy <;>
      rw [current, sleeping] at bad <;> cases bad

/-- A thread that is still queued when its CPU switches falls asleep. -/
theorem switched_sleeps {cpu : Nat} (reached : (threadSystem cpus).Reachable s)
    (taken : (threadSystem cpus).step s (.schedule cpu) = some t)
    (tid : IsTid (s.threads.schedulerCurrentThread cpu))
    (waits : t.threads.sleepsOn (s.threads.schedulerCurrentThread cpu) ≠ 0) :
    t.threads.state (s.threads.schedulerCurrentThread cpu) = .sleeping := by
  obtain ⟨allowed, -, ready, chain, ready', placed, placed', effect⟩ := step_effect reached taken
  have here : cpu < cpus := by simpa [Machine.allows] using allowed
  apply (placed'.queued _ tid waits).resolve_right
  intro runs
  obtain ⟨c, on, current⟩ := placed'.running _ tid (.inl runs)
  by_cases same : c = cpu
  · have awake := effect.arrives cpu rfl
    rw [← same, current] at awake
    exact waits awake
  · rw [effect.current c (by simpa using Ne.symm same)] at current
    have busy : s.threads.schedulerCurrentThread cpu ≠ 0 := by
      have := tid.1
      omega
    exact placed.elsewhere here on same busy current

/-- A thread that can act still can when it has taken no action. -/
theorem acts_stays (reached : (threadSystem cpus).Reachable s)
    (taken : (threadSystem cpus).step s a = some t) {cpu : Nat} (on : cpu < cpus)
    (acts : s.threads.acts cpu = true) (other : a.cpu ≠ some cpu) :
    t.threads.acts cpu = true ∧
      t.threads.schedulerCurrentThread cpu = s.threads.schedulerCurrentThread cpu := by
  obtain ⟨allowed, -, ready, chain, ready', placed, placed', effect⟩ := step_effect reached taken
  obtain ⟨busy, runs, awake⟩ := Placed.acts_iff.1 acts
  have current : t.threads.schedulerCurrentThread cpu = s.threads.schedulerCurrentThread cpu := by
    apply effect.current
    rintro rfl
    exact other rfl
  have still : t.threads.sleepsOn (s.threads.schedulerCurrentThread cpu) = 0 := by
    by_contra waits
    have queued := waits_of_queued reached taken waits
    cases a with
    | sleepqAdd c resource =>
        simp only [Machine.allows, Bool.and_eq_true, decide_eq_true_eq] at allowed
        have ne : c ≠ cpu := fun same => other (by rw [Action.cpu, same])
        rw [Action.waits, Function.update_of_ne
          (placed.elsewhere on allowed.1.1 ne busy).symm] at queued
        exact waits (queued.trans awake)
    | schedule | create | init | addReady | finish | wake | wakeAll =>
        exact waits (queued.trans awake)
  refine ⟨?_, current⟩
  rw [Placed.acts_iff, current]
  refine ⟨busy, ?_, still⟩
  have states := placed'.current cpu on (by rw [current]; exact busy)
  rw [current] at states
  apply states.2.resolve_right
  intro dies
  rcases effect.dies _ dies with before | ⟨c, rfl, same⟩
  · rw [runs] at before
    cases before
  · simp only [Machine.allows, Bool.and_eq_true, decide_eq_true_eq] at allowed
    have ne : c ≠ cpu := fun same => other (by rw [Action.cpu, same])
    exact placed.elsewhere on allowed.1 ne busy same.symm

end Steps

end Buenos.Kernel
