/-
# Kernel.CswitchIntact -- the contexts stay intact

The invariant of the runs of `Kernel.CswitchRuns`, kept by the two steps that run the context
switch code.  `Intact` has two parts.  In memory: the pointers lead to the contexts that the
ghost column `saved` lists.  On the CPUs: a thread that no CPU is running has a context to come
back to, and a CPU in user mode runs a thread without one.

A trap writes one context and one pointer, both of the thread it interrupts.  `eret` writes one
pointer.  So everything else in the invariant is a frame condition: the regions of `Layout` are
apart, and two threads' stacks are.
-/
import Buenos.Kernel.CswitchRuns

namespace Buenos.Kernel

open Buenos.Lib Buenos.Theory Buenos.Theory.Mips

set_option autoImplicit false

/-! ## Who is parked -/

/-- The thread is off the CPUs and will get one: it is ready, or sleeps, or was just made. -/
def Machine.Parked (m : Machine) (t : Int) : Prop :=
  m.threads.state t = .ready ∨ m.threads.state t = .sleeping ∨ m.birth t = .initialised

section Threads

variable {cpus : Nat} {m n : Machine} {a : Action}

theorem tid_real (reached : (threadSystem cpus).Reachable m) {cpu : Nat} (on : cpu < cpus) :
    0 ≤ m.threads.schedulerCurrentThread cpu ∧ m.threads.schedulerCurrentThread cpu < 32 := by
  obtain ⟨-, ready, chain, placed⟩ := placed_reachable reached
  by_cases busy : m.threads.schedulerCurrentThread cpu = 0
  · omega
  · obtain ⟨⟨positive, below⟩, -⟩ := placed.current cpu on busy
    omega

theorem tid_unique (reached : (threadSystem cpus).Reachable m) {cpu c : Nat} (on : cpu < cpus)
    (on' : c < cpus) (busy : m.threads.schedulerCurrentThread cpu ≠ 0)
    (same : m.threads.schedulerCurrentThread cpu = m.threads.schedulerCurrentThread c) : cpu = c := by
  obtain ⟨-, ready, chain, placed⟩ := placed_reachable reached
  exact placed.unique cpu on c on' busy same

/-- A current thread is not parked. -/
theorem current_not_parked (reached : (threadSystem cpus).Reachable m) {cpu : Nat} (on : cpu < cpus)
    (busy : m.threads.schedulerCurrentThread cpu ≠ 0) :
    ¬ m.Parked (m.threads.schedulerCurrentThread cpu) := by
  obtain ⟨-, ready, chain, placed⟩ := placed_reachable reached
  obtain ⟨tid, runs⟩ := placed.current cpu on busy
  rintro (bad | bad | born)
  · rw [bad] at runs
    simp at runs
  · rw [bad] at runs
    simp at runs
  · have := (placed.unborn _ (by rw [born]; decide)).2
    rw [this] at runs
    simp at runs

/-- A switch parks the thread that it takes off the CPU, if anything, and its new thread was
parked or was there already. -/
theorem switch_parked (reached : (threadSystem cpus).Reachable m) {cpu : Nat}
    (taken : (threadSystem cpus).step m (.schedule cpu) = some n) :
    (∀ t, IsTid t → n.Parked t → m.Parked t ∨ t = m.threads.schedulerCurrentThread cpu) ∧
    (n.threads.schedulerCurrentThread cpu ≠ 0 →
      IsTid (n.threads.schedulerCurrentThread cpu) ∧
        (m.Parked (n.threads.schedulerCurrentThread cpu) ∨
          n.threads.schedulerCurrentThread cpu = m.threads.schedulerCurrentThread cpu)) ∧
    ∀ c, c ≠ cpu → n.threads.schedulerCurrentThread c = m.threads.schedulerCurrentThread c := by
  obtain ⟨allowed, -, ready, chain, -, placed, -, -⟩ := step_effect reached taken
  have on : cpu < cpus := by simpa [Machine.allows] using allowed
  obtain ⟨-, current, state⟩ := switch_step reached taken
  obtain ⟨u, ran, -⟩ := placed.dispatch on
  have birth : n.birth = m.birth := (step_ran reached taken (run_unit ran)).2
  rw [Action.lined, placed.readyList_eq, Action.readies] at current state
  refine ⟨?_, ?_, ?_⟩
  · intro t tid parked
    by_cases same : t = m.threads.schedulerCurrentThread cpu
    · exact .inr same
    · left
      rw [Machine.Parked, birth, state] at parked
      by_cases next : t = (ready ++ m.threads.requeued cpu).head?.getD 0
      · rw [← next, Function.update_self] at parked
        rcases parked with bad | bad | born
        · cases bad
        · cases bad
        · exact .inr (.inr born)
      · rw [Function.update_of_ne next, Function.update_of_ne same] at parked
        exact parked
  · rw [current, Function.update_self]
    cases shape : ready ++ m.threads.requeued cpu with
    | nil =>
        intro busy
        exact absurd rfl busy
    | cons next rest =>
        intro _
        have mem : next ∈ ready ++ m.threads.requeued cpu := by
          rw [shape]
          exact List.mem_cons_self
        simp only [List.head?_cons, Option.getD_some]
        rcases List.mem_append.1 mem with old | new
        · obtain ⟨tid, isReady⟩ := (placed.onReady next).1 old
          exact ⟨tid, .inl (.inl isReady)⟩
        · rw [Threads.requeued] at new
          split at new
          · cases new
          · rename_i goes
            rw [List.mem_singleton] at new
            rw [new]
            exact ⟨(placed.current cpu on fun idle => goes (.inr (.inr idle))).1, .inr rfl⟩
  · intro c other
    rw [current, Function.update_of_ne other]

/-- No other section parks a thread that was not parked, but `thread_create`'s own. -/
theorem other_parked (reached : (threadSystem cpus).Reachable m)
    (taken : (threadSystem cpus).step m a = some n) (other : a.switches = false) {t : Int}
    (tid : IsTid t) (parked : n.Parked t) : m.Parked t ∨ a = .init t := by
  obtain ⟨allowed, -, ready, chain, ready', placed, placed', effect⟩ := step_effect reached taken
  have given : ∀ {u : Threads} {result : Int}, a.run m.threads = .returned (result, u) →
      u.state t = .ready ∨ u.state t = .sleeping ∨ birthAfter m.birth result a t = .initialised := by
    intro u result ran
    obtain ⟨same, birth⟩ := step_ran reached taken ran
    rw [Machine.Parked, same, birth] at parked
    exact parked
  cases a with
  | schedule => cases other
  | create =>
      left
      cases found : freeTid m.threads with
      | none =>
          have ran : Action.create.run m.threads = .returned (-1, m.threads) := by
            simp [Action.run, threadCreate, Prog.bind_apply, found]
          simpa [birthAfter, Machine.Parked] using given ran
      | some x =>
          have ran : Action.create.run m.threads = .returned ((x : Int),
              { m.threads.setState x .nonready with nextTid := (x + 1) % CONFIG_MAX_THREADS }) := by
            simp [Action.run, threadCreate, Prog.bind_apply, found]
          have now := given ran
          simp only [Threads.setState, birthAfter, Int.natCast_nonneg, if_true] at now
          by_cases same : t = x
          · subst same
            simp at now
          · rw [Function.update_of_ne same, Function.update_of_ne same] at now
            exact now
  | init x =>
      obtain ⟨u, ran, -, -, -, state⟩ := placed.init (t := x)
        (by simpa [Machine.allows] using allowed)
      have now := given (run_unit ran)
      simp only [state, birthAfter] at now
      by_cases same : t = x
      · exact .inr (congrArg _ same.symm)
      · rw [Function.update_of_ne same] at now
        exact .inl now
  | addReady x =>
      have initialised : m.birth x = .initialised := by simpa [Machine.allows] using allowed
      obtain ⟨u, ran, -, -, -, state⟩ := placed.addReady initialised
      have now := given (run_unit ran)
      simp only [state, birthAfter] at now
      left
      by_cases same : t = x
      · rw [same]
        exact .inr (.inr initialised)
      · rw [Function.update_of_ne same, Function.update_of_ne same] at now
        exact now
  | finish cpu =>
      simp only [Machine.allows, Bool.and_eq_true, decide_eq_true_eq] at allowed
      obtain ⟨u, ran, -, -, -, state⟩ := placed.finish allowed.1 allowed.2
      have now := given (run_unit ran)
      simp only [state, birthAfter] at now
      left
      by_cases same : t = m.threads.schedulerCurrentThread cpu
      · rw [← same, Function.update_self] at now
        rcases now with bad | bad | born
        · cases bad
        · cases bad
        · exact .inr (.inr born)
      · rw [Function.update_of_ne same] at now
        exact now
  | sleepqAdd cpu resource =>
      simp only [Machine.allows, Bool.and_eq_true, decide_eq_true_eq] at allowed
      obtain ⟨u, ran, -, -, -, state⟩ := placed.sleepqAdd allowed.1.1 allowed.1.2 allowed.2
      have now := given (run_unit ran)
      rw [state] at now
      exact .inl now
  | wake resource | wakeAll resource =>
      obtain ⟨result, u, -, ran, -, -⟩ := placed.step allowed
      have birth : n.birth = m.birth := (step_ran reached taken ran).2
      have state := (effect.wakes resource (by simp)).2 t
      rw [Machine.Parked, birth, state] at parked
      left
      split at parked
      · rename_i woken
        exact .inr (.inl woken.2)
      · exact parked

end Threads

/-! ## The invariant -/

/-- The pointers in memory lead to the saved contexts. -/
structure InMemory (L : Layout) (cpus : Nat) (boot : Words) (s : Switching) : Prop where
  slots : ∀ cpu < cpus, s.mem (L.slot cpu) = BitVec.ofNat 32 (s.tid cpu)
  stacked : ∀ t, 0 < t → t < CONFIG_MAX_THREADS →
    Stacked L s.mem t (s.mem (L.row t)) (s.saved t)
  sp : ∀ t, 0 < t → t < CONFIG_MAX_THREADS →
    (s.saved t ≠ [] ∨ ∃ cpu < cpus, s.tid cpu = t) →
    s.mem (L.base t + 104) = BitVec.ofNat 32 (L.base t - 8)
  idleRow : s.mem (L.row 0) = BitVec.ofNat 32 (L.base 0)
  idleLink : s.mem (L.base 0 + 132) = BitVec.ofNat 32 (L.base 0)
  idle : contextAt s.mem (L.base 0) = idleContext L boot
  unsaved : s.saved 0 = []

structure Intact (L : Layout) (cpus : Nat) (boot : Words) (s : Switching) : Prop where
  machine : (threadSystem cpus).Reachable s.machine
  memory : InMemory L cpus boot s
  prid : ∀ cpu < cpus, (s.cpu cpu).cop0 .prid >>> 24 = BitVec.ofNat 32 cpu
  parked : ∀ t, IsTid t → s.machine.Parked t → s.saved t.toNat ≠ []
  entered : ∀ cpu < cpus, s.stage cpu ≠ .running → s.tid cpu ≠ 0 → s.saved (s.tid cpu) ≠ []
  user : ∀ cpu < cpus, userMode (s.cpu cpu) = true →
    s.stage cpu = .running ∧ s.tid cpu ≠ 0 ∧ s.saved (s.tid cpu) = []

namespace Switching

variable {L : Layout} {s : Switching}

theorem protected_slot {cpu : Nat} (on : cpu < CONFIG_MAX_CPUS) : s.Protected L (L.slot cpu) :=
  .inl ⟨cpu, on, rfl⟩

theorem protected_row {t : Nat} (real : t < CONFIG_MAX_THREADS) : s.Protected L (L.row t) :=
  .inr (.inl ⟨t, real, .inl rfl⟩)

theorem protected_sp {t : Nat} (real : t < CONFIG_MAX_THREADS) : s.Protected L (L.base t + 104) :=
  .inr (.inl ⟨t, real, .inr (.inl rfl)⟩)

theorem protected_frames {t a : Nat} (real : t < CONFIG_MAX_THREADS)
    (covered : Covers (s.saved t) a) : s.Protected L a :=
  .inr (.inl ⟨t, real, .inr (.inr covered)⟩)

theorem protected_idle {a : Nat} (first : L.base 0 ≤ a) (last : a < L.base 0 + contextSize) :
    s.Protected L a :=
  .inr (.inr ⟨first, last⟩)

end Switching

section Memory

variable {L : Layout} {cpus : Nat} {boot : Words} {s : Switching}

open Switching

/-- Memory may change wherever no context and no pointer lies. -/
theorem InMemory.congr (memory : InMemory L cpus boot s) (few : cpus ≤ CONFIG_MAX_CPUS) {mem : Words}
    (same : ∀ a, s.Protected L a → mem a = s.mem a) :
    InMemory L cpus boot { s with mem := mem } where
  slots cpu on := (same _ (protected_slot (by omega))).trans (memory.slots cpu on)
  stacked t positive real := by
    show Stacked L mem t (mem (L.row t)) (s.saved t)
    rw [same _ (protected_row real)]
    exact (memory.stacked t positive real).congr fun a covered =>
      same a (protected_frames real covered)
  sp t positive real live := (same _ (protected_sp real)).trans (memory.sp t positive real live)
  idleRow := (same _ (protected_row (by decide))).trans memory.idleRow
  idleLink := (same _ (protected_idle (by omega) (by unfold contextSize; omega))).trans
    memory.idleLink
  idle := by
    rw [← memory.idle]
    apply contextAt_congr
    intro b first last
    exact same b (protected_idle first (by unfold contextSize; omega))
  unsaved := memory.unsaved

/-- The registers, the stages and what the threads do are not in memory. -/
theorem InMemory.of_eq (memory : InMemory L cpus boot s) {t : Switching} (mem : t.mem = s.mem)
    (saved : t.saved = s.saved) (tids : ∀ cpu < cpus, t.tid cpu = s.tid cpu) :
    InMemory L cpus boot t where
  slots cpu on := by rw [mem, tids cpu on]; exact memory.slots cpu on
  stacked k positive real := by rw [mem, saved]; exact memory.stacked k positive real
  sp k positive real live := by
    rw [mem]
    apply memory.sp k positive real
    rcases live with some | ⟨cpu, on, current⟩
    · exact .inl (saved ▸ some)
    · exact .inr ⟨cpu, on, (tids cpu on).symm.trans current⟩
  idleRow := by rw [mem]; exact memory.idleRow
  idleLink := by rw [mem]; exact memory.idleLink
  idle := by rw [mem]; exact memory.idle
  unsaved := by rw [saved]; exact memory.unsaved

end Memory

section Status

variable (status : BitVec 32)

theorem user_of_mask {after before : BitVec 32} (same : after &&& 0x12 = before &&& 0x12) :
    after &&& 0x10 = before &&& 0x10 := by
  have bits : (0x10 : BitVec 32) = 0x12 &&& 0x10 := by decide
  rw [bits, ← BitVec.and_assoc, ← BitVec.and_assoc, same]

theorem user_clearExl : status &&& 0xfffffffd &&& 0x10 = status &&& 0x10 := by
  have bits : (0xfffffffd : BitVec 32) &&& 0x10 = 0x10 := by decide
  rw [BitVec.and_assoc, bits]

theorem user_setExl : (status ||| 0x2) &&& 0x10 = status &&& 0x10 := by
  have bits : (0x2 : BitVec 32) &&& 0x10 = 0 := by decide
  rw [BitVec.and_or_distrib_right, bits]
  exact BitVec.or_zero

theorem user_context : status &&& 0xff11 &&& 0x10 = status &&& 0x10 := by
  have bits : (0xff11 : BitVec 32) &&& 0x10 = 0x10 := by decide
  rw [BitVec.and_assoc, bits]

theorem user_entered : status &&& 0xffffffef &&& 0x10 = 0 := by
  have bits : (0xffffffef : BitVec 32) &&& 0x10 = 0 := by decide
  rw [BitVec.and_assoc, bits]
  exact BitVec.and_zero

theorem context_setExl : (status ||| 0x2) &&& 0xff11 = status &&& 0xff11 := by
  have bits : (0x2 : BitVec 32) &&& 0xff11 = 0 := by decide
  rw [BitVec.and_or_distrib_right, bits]
  exact BitVec.or_zero

theorem context_idem : status &&& 0xff11 &&& 0xff11 = status &&& 0xff11 := by
  rw [BitVec.and_assoc, BitVec.and_self]

end Status

/-- The trap itself changes nothing that the code saves. -/
theorem interrupted_hardwareTrap (c : Cpu) (cause : BitVec 32) :
    Context.interrupted (hardwareTrap c cause) = Context.running c := by
  ext1
  · rfl
  · rfl
  · rfl
  · simp [Context.interrupted, Context.running, hardwareTrap]
  · simp only [Context.interrupted, Context.running, hardwareTrap, Cpu.cop0_setCop0,
      Function.update_self, context_setExl]

theorem userMode_hardwareTrap (c : Cpu) (cause : BitVec 32) :
    userMode (hardwareTrap c cause) = userMode c := by
  simp only [userMode, hardwareTrap, Cpu.cop0_setCop0, Function.update_self, user_setExl]

theorem stackTop_hardwareTrap (L : Layout) (c : Cpu) (mem : Words) (cause : BitVec 32) (t : Nat) :
    stackTop L ⟨hardwareTrap c cause, mem⟩ t =
      if userMode c = true then mem ((mem (L.row t)).toNat + 104) else c.reg .sp := by
  have mode := userMode_hardwareTrap c cause
  simp only [userMode, decide_eq_decide] at mode
  rw [stackTop, ← ite_not]
  by_cases user : userMode c = true
  · rw [if_pos user, if_pos (mode.2 (by simpa [userMode] using user))]
  · rw [if_neg user, if_neg fun bad => user (by simpa [userMode] using mode.1 bad)]
    rfl

/-! ## Traps -/

section Trap

variable {L : Layout} {cpus : Nat} {boot : Words} {s : Switching} {cpu : Nat}

open Switching

theorem Intact.tid_lt (intact : Intact L cpus boot s) (on : cpu < cpus) :
    s.tid cpu < CONFIG_MAX_THREADS := by
  obtain ⟨-, below⟩ := tid_real intact.machine on
  unfold Switching.tid CONFIG_MAX_THREADS
  omega

/-- The tid as the scheduler has it. -/
theorem Intact.tid_eq (intact : Intact L cpus boot s) (on : cpu < cpus) :
    s.machine.threads.schedulerCurrentThread cpu = s.tid cpu :=
  (Int.toNat_of_nonneg (tid_real intact.machine on).1).symm

theorem Intact.unique (intact : Intact L cpus boot s) {c : Nat} (on : cpu < cpus) (on' : c < cpus)
    (busy : s.tid cpu ≠ 0) (same : s.tid cpu = s.tid c) : cpu = c := by
  apply tid_unique intact.machine on on'
  · rw [intact.tid_eq on]
    exact_mod_cast busy
  · rw [intact.tid_eq on, intact.tid_eq on', same]

theorem Intact.not_parked (intact : Intact L cpus boot s) (on : cpu < cpus) (busy : s.tid cpu ≠ 0) :
    ¬ s.machine.Parked (s.tid cpu) := by
  rw [← intact.tid_eq on]
  apply current_not_parked intact.machine on
  rw [intact.tid_eq on]
  exact_mod_cast busy

/-- The context of a trap fits at `f`. -/
structure FrameFits (L : Layout) (s : Switching) (cpu f : Nat) : Prop where
  aligned : f % 4 = 0
  room : f + contextSize < 2 ^ 32
  own : s.tid cpu ≠ 0 → L.area (s.tid cpu) ≤ f ∧
    f + contextSize ≤ frameTop L (s.tid cpu) (s.saved (s.tid cpu))
  idle : s.tid cpu = 0 → IdleRoom L f

/-- Kernel code has room by its own discipline, and a thread in user mode has its whole kernel
stack. -/
theorem Intact.frame_fits (intact : Intact L cpus boot s) (on : cpu < cpus)
    (kernel : userMode (s.cpu cpu) = false → s.Room L cpu) (cause : BitVec 32) :
    FrameFits L s cpu (s.frame L cpu cause) ∧
      stackTop L ⟨hardwareTrap (s.cpu cpu) cause, s.mem⟩ (s.tid cpu) =
        BitVec.ofNat 32 (s.frame L cpu cause + contextSize) := by
  have real := intact.tid_lt on
  obtain ⟨top, isTop⟩ : ∃ top, top =
    (stackTop L ⟨hardwareTrap (s.cpu cpu) cause, s.mem⟩ (s.tid cpu)).toNat := ⟨_, rfl⟩
  have below : top < 2 ^ 32 := isTop ▸ BitVec.isLt _
  have frame : s.frame L cpu cause = top - contextSize := by rw [Switching.frame, isTop]
  suffices facts : contextSize ≤ top ∧ FrameFits L s cpu (top - contextSize) by
    refine ⟨frame ▸ facts.2, ?_⟩
    rw [frame, Nat.sub_add_cancel facts.1, isTop, BitVec.ofNat_toNat, BitVec.setWidth_eq]
  rw [stackTop_hardwareTrap] at isTop
  by_cases user : userMode (s.cpu cpu) = true
  · obtain ⟨-, busy, none⟩ := intact.user cpu on user
    have stacked := intact.memory.stacked _ (by omega) real
    rw [none] at stacked
    obtain ⟨bound, aligned⟩ := L.base_bound real
    have value : top = L.base (s.tid cpu) - 8 := by
      unfold contextSize at bound
      rw [isTop, if_pos user, stacked.pointer, frameTop_nil, BitVec.toNat_ofNat, Nat.mod_eq_of_lt (by omega),
        intact.memory.sp _ (by omega) real (.inr ⟨cpu, on, rfl⟩), BitVec.toNat_ofNat,
        Nat.mod_eq_of_lt (by omega)]
    have room : L.area (s.tid cpu) + 3960 = L.base (s.tid cpu) := by
      unfold Layout.base CONFIG_THREAD_STACKSIZE contextSize
      omega
    unfold contextSize at *
    exact ⟨by omega, by omega, by unfold contextSize; omega,
      fun _ => by rw [none, frameTop_nil]; unfold contextSize; omega, fun idle => absurd idle busy⟩
  · obtain ⟨aligned, least, room⟩ := kernel (by simpa using user)
    have value : top = ((s.cpu cpu).reg .sp).toNat := by
      rw [isTop, if_neg user]
    rw [← value] at aligned least room
    refine ⟨least, ?_, by omega, fun busy => ?_, fun idle => ?_⟩
    · unfold contextSize
      omega
    · rw [if_neg busy] at room
      omega
    · rw [if_pos idle] at room
      exact room

/-- The context of a trap is written where nothing that counts lies. -/
theorem FrameFits.avoids {f a : Nat} (fits : FrameFits L s cpu f) (memory : InMemory L cpus boot s)
    (real : s.tid cpu < CONFIG_MAX_THREADS) (counts : s.Protected L a) :
    a < f ∨ f + contextSize ≤ a := by
  by_contra inside
  rw [not_or, not_lt, not_le] at inside
  have based : ∀ {k o : Nat}, o < contextSize → L.InArea k (L.base k + o) := L.base_inArea
  have covers : ∀ {k b : Nat}, k < CONFIG_MAX_THREADS → Covers (s.saved k) b →
      L.InArea k b ∧ k ≠ 0 ∧ frameTop L k (s.saved k) ≤ b := by
    intro k b realK covered
    have busy : k ≠ 0 := by
      rintro rfl
      rw [memory.unsaved] at covered
      obtain ⟨x, none, -⟩ := covered
      cases none
    have stacked := memory.stacked k (by omega) realK
    exact ⟨stacked.inArea covered, busy, stacked.covers_above covered⟩
  by_cases busy : s.tid cpu = 0
  · obtain ⟨offSlots, offRows, -, offStacks⟩ := fits.idle busy
    obtain ⟨bound, -⟩ := L.area_bound
    have offArea : ∀ {k b : Nat}, k < CONFIG_MAX_THREADS → L.InArea k b → f ≤ b →
        b < f + contextSize → k = 0 ∧ b < L.base 0 := by
      intro k b realK inArea first last
      rcases offStacks with ⟨low, high⟩ | apart
      · have own : L.InArea 0 b := by
          simp only [Layout.InArea, Layout.base, Layout.area, CONFIG_THREAD_STACKSIZE,
            contextSize] at *
          omega
        exact ⟨Layout.area_unique inArea own, by omega⟩
      · simp only [Apart, Layout.InArea, Layout.area, CONFIG_THREAD_STACKSIZE, contextSize,
          CONFIG_MAX_THREADS] at *
        omega
    rcases counts with ⟨c, onC, rfl⟩ | ⟨k, realK, rfl | rfl | covered⟩ | ⟨first, last⟩
    · simp only [Apart, Layout.slot, CONFIG_MAX_CPUS] at *
      omega
    · simp only [Apart, Layout.row, rowSize, CONFIG_MAX_THREADS] at *
      omega
    · obtain ⟨rfl, high⟩ := offArea realK (based (by unfold contextSize; omega)) inside.1 inside.2
      omega
    · obtain ⟨inArea, busyK, -⟩ := covers realK covered
      exact busyK (offArea realK inArea inside.1 inside.2).1
    · have inArea : L.InArea 0 a := by
        obtain ⟨o, rfl⟩ := Nat.exists_eq_add_of_le first
        exact based (by omega)
      have := (offArea (by decide) inArea inside.1 inside.2).2
      omega
  · obtain ⟨low, high⟩ := fits.own busy
    have top := (memory.stacked _ (by omega) real).top_le
    have own : L.InArea (s.tid cpu) a := by
      simp only [Layout.InArea, Layout.base, Layout.area, CONFIG_THREAD_STACKSIZE,
        contextSize] at *
      omega
    rcases counts with ⟨c, onC, rfl⟩ | ⟨k, realK, rfl | rfl | covered⟩ | ⟨first, last⟩
    · exact Layout.area_slot own real onC rfl
    · exact Layout.area_row own real realK rfl
    · have := Layout.area_unique own (based (k := k) (o := 104) (by unfold contextSize; omega))
      subst this
      omega
    · obtain ⟨inArea, -, above⟩ := covers realK covered
      have := Layout.area_unique own inArea
      subst this
      omega
    · have inArea : L.InArea 0 a := by
        obtain ⟨o, rfl⟩ := Nat.exists_eq_add_of_le first
        exact based (by omega)
      exact busy (Layout.area_unique own inArea)

theorem FrameFits.apart {f : Nat} (fits : FrameFits L s cpu f) (memory : InMemory L cpus boot s)
    (few : cpu < CONFIG_MAX_CPUS) (real : s.tid cpu < CONFIG_MAX_THREADS) :
    FrameApart L cpu (s.tid cpu) f where
  slot := fits.avoids memory real (protected_slot few)
  row := fits.avoids memory real (protected_row real)
  stackSlot := by
    by_contra inside
    rw [not_or, not_lt, not_le] at inside
    by_cases busy : s.tid cpu = 0
    · obtain ⟨-, -, offStacks, -⟩ := fits.idle busy
      simp only [Apart, Layout.stackSlot, CONFIG_MAX_CPUS] at *
      omega
    · obtain ⟨low, high⟩ := fits.own busy
      have top := (memory.stacked _ (by omega) real).top_le
      have own : L.InArea (s.tid cpu) (L.stackSlot cpu) := by
        simp only [Layout.InArea, Layout.base, Layout.area, CONFIG_THREAD_STACKSIZE,
          contextSize] at *
        omega
      exact Layout.area_stackSlot own real few rfl
  rows := ⟨Layout.row_slot real few, Layout.row_stackSlot real few⟩

/-- What the pointer of a thread shows. -/
theorem InMemory.pointer (memory : InMemory L cpus boot s) {t : Nat} (real : t < CONFIG_MAX_THREADS) :
    s.mem (L.row t) = BitVec.ofNat 32 (frameTop L t (s.saved t)) := by
  by_cases idle : t = 0
  · subst idle
    rw [memory.unsaved, frameTop_nil, memory.idleRow]
  · exact (memory.stacked t (by omega) real).pointer

/-- A trap runs to the handler, and saves the context of the CPU. -/
theorem Intact.trap_runs (intact : Intact L cpus boot s) (few : cpus ≤ CONFIG_MAX_CPUS)
    (on : cpu < cpus) (kernel : userMode (s.cpu cpu) = false → s.Room L cpu) (cause : BitVec 32) :
    ∃ u, cswitchSwitch L ⟨hardwareTrap (s.cpu cpu) cause, s.mem⟩ =
        some (u, handlerOf (hardwareTrap (s.cpu cpu) cause)) ∧
      Entered L cpu (s.tid cpu) (s.frame L cpu cause) ⟨hardwareTrap (s.cpu cpu) cause, s.mem⟩ u := by
  have real := intact.tid_lt on
  obtain ⟨fits, top⟩ := intact.frame_fits on kernel cause
  have mode := userMode_hardwareTrap (s.cpu cpu) cause
  refine cswitchSwitch_run (s := ⟨hardwareTrap (s.cpu cpu) cause, s.mem⟩) (by omega) real ?_
    (intact.memory.slots cpu on) (intact.memory.pointer real) ?_ top fits.aligned fits.room
    (fits.apart intact.memory (by omega) real)
  · exact intact.prid cpu on
  · intro user
    have isUser : userMode (s.cpu cpu) = true := by
      rw [← mode]
      exact decide_eq_true user
    rw [(intact.user cpu on isUser).2.2, frameTop_nil]
    obtain ⟨bound, aligned⟩ := L.base_bound real
    exact ⟨bound.le, aligned⟩

/-- A trap writes its context and the pointer, and nothing else that counts. -/
theorem Intact.trap_keeps (intact : Intact L cpus boot s) (on : cpu < cpus)
    (kernel : userMode (s.cpu cpu) = false → s.Room L cpu) {cause : BitVec 32} {u : State}
    (entered : Entered L cpu (s.tid cpu) (s.frame L cpu cause)
      ⟨hardwareTrap (s.cpu cpu) cause, s.mem⟩ u) {a : Nat} (counts : s.Protected L a)
    (other : a ≠ L.row (s.tid cpu)) : u.mem a = s.mem a :=
  entered.other a ((intact.frame_fits on kernel cause).1.avoids intact.memory (intact.tid_lt on)
    counts) other

/-- The address of a word of a stack is not that of a row. -/
theorem covers_ne_row {t k a : Nat} {mem : Words} {p : BitVec 32} {frames : List Frame}
    (stacked : Stacked L mem t p frames) (real : t < CONFIG_MAX_THREADS)
    (realK : k < CONFIG_MAX_THREADS) (covered : Covers frames a) : a ≠ L.row k :=
  Layout.area_row (stacked.inArea covered) real realK

theorem base_ne_row {t k o : Nat} (inside : o < contextSize) (real : t < CONFIG_MAX_THREADS)
    (realK : k < CONFIG_MAX_THREADS) : L.base t + o ≠ L.row k :=
  Layout.area_row (Layout.base_inArea inside) real realK

/-- The stack of one thread after a trap. -/
theorem Intact.trap_stacked (intact : Intact L cpus boot s) (on : cpu < cpus)
    (kernel : userMode (s.cpu cpu) = false → s.Room L cpu) {cause : BitVec 32} {u : State}
    (entered : Entered L cpu (s.tid cpu) (s.frame L cpu cause)
      ⟨hardwareTrap (s.cpu cpu) cause, s.mem⟩ u) {k : Nat} (positive : 0 < k)
    (realK : k < CONFIG_MAX_THREADS) :
    Stacked L u.mem k (u.mem (L.row k))
      (s.pushed cpu (s.frame L cpu cause, Context.running (s.cpu cpu)) k) := by
  have real := intact.tid_lt on
  have stacked := intact.memory.stacked k positive realK
  have frames : ∀ a, Covers (s.saved k) a → u.mem a = s.mem a := fun a covered =>
    intact.trap_keeps on kernel entered (protected_frames realK covered)
      (covers_ne_row stacked realK real covered)
  by_cases same : k = s.tid cpu
  · subst same
    have busy : s.tid cpu ≠ 0 := by omega
    obtain ⟨fits, -⟩ := intact.frame_fits on kernel cause
    obtain ⟨low, high⟩ := fits.own busy
    rw [s.pushed_self _ busy, entered.pointer, if_neg (by simpa [IDLE_THREAD_TID] using busy)]
    refine stacked.push ?_ entered.linked fits.aligned low high (context_idem _) ?_ frames
    · rw [entered.saved, interrupted_hardwareTrap]
    · intro user
      rw [Context.running, user_context] at user
      exact (intact.user cpu on (decide_eq_true user)).2.2
  · rw [s.pushed_other _ same, intact.trap_keeps on kernel entered (protected_row realK) fun bad =>
      same (Layout.row_injective bad)]
    exact stacked.congr frames

theorem Intact.trap_memory (intact : Intact L cpus boot s) (few : cpus ≤ CONFIG_MAX_CPUS)
    (on : cpu < cpus) (kernel : userMode (s.cpu cpu) = false → s.Room L cpu) {cause : BitVec 32}
    {u : State} (entered : Entered L cpu (s.tid cpu) (s.frame L cpu cause)
      ⟨hardwareTrap (s.cpu cpu) cause, s.mem⟩ u) :
    InMemory L cpus boot { s with
      mem := u.mem
      saved := s.pushed cpu (s.frame L cpu cause, Context.running (s.cpu cpu)) } := by
  have real := intact.tid_lt on
  have memory := intact.memory
  have keeps : ∀ {a : Nat}, s.Protected L a → a ≠ L.row (s.tid cpu) → u.mem a = s.mem a :=
    intact.trap_keeps on kernel entered
  have inside : 132 < contextSize := by decide
  refine
    { slots := fun c onC => (keeps (protected_slot (by omega))
        (Layout.row_slot real (by omega)).symm).trans (memory.slots c onC)
      stacked := fun k positive realK => intact.trap_stacked on kernel entered positive realK
      sp := ?_
      idleRow := ?_
      idleLink := (keeps (protected_idle (by omega) (by omega))
        (base_ne_row inside (by decide) real)).trans memory.idleLink
      idle := ?_
      unsaved := (s.pushed_idle _).trans memory.unsaved }
  · intro k positive realK live
    refine (keeps (protected_sp realK) (base_ne_row (by omega) realK real)).trans
      (memory.sp k positive realK ?_)
    by_cases same : k = s.tid cpu
    · exact .inr ⟨cpu, on, same.symm⟩
    · rw [← s.pushed_other _ same]
      exact live
  · show u.mem (L.row 0) = _
    by_cases same : s.tid cpu = 0
    · have pointer := entered.pointer
      rw [same, if_pos (by rfl)] at pointer
      exact pointer.trans memory.idleRow
    · exact (keeps (protected_row (by decide)) fun bad =>
        same (Layout.row_injective bad).symm).trans memory.idleRow
  · rw [← memory.idle]
    apply contextAt_congr
    intro b first last
    obtain ⟨o, rfl⟩ := Nat.exists_eq_add_of_le first
    exact keeps (protected_idle first (by omega)) (base_ne_row (by omega) (by decide) real)

/-- **A trap** keeps the invariant. -/
theorem Intact.trap (intact : Intact L cpus boot s) (few : cpus ≤ CONFIG_MAX_CPUS) (on : cpu < cpus)
    (kernel : userMode (s.cpu cpu) = false → s.Room L cpu) {cause : BitVec 32} {u : State}
    {h : Handler} (entered : Entered L cpu (s.tid cpu) (s.frame L cpu cause)
      ⟨hardwareTrap (s.cpu cpu) cause, s.mem⟩ u) :
    Intact L cpus boot { s with
      cpu := Function.update s.cpu cpu u.cpu
      mem := u.mem
      stage := Function.update s.stage cpu h.stage
      saved := s.pushed cpu (s.frame L cpu cause, Context.running (s.cpu cpu)) } where
  machine := intact.machine
  memory := (intact.trap_memory few on kernel entered).of_eq rfl rfl fun _ _ => rfl
  prid := by
    intro c onC
    show (Function.update s.cpu cpu u.cpu c).cop0 .prid >>> 24 = _
    by_cases same : c = cpu
    · rw [same, Function.update_self, entered.cop0, Function.update_of_ne (by decide)]
      exact intact.prid cpu on
    · rw [Function.update_of_ne same]
      exact intact.prid c onC
  parked k tid parked := s.pushed_ne_nil _ (intact.parked k tid parked)
  entered := by
    intro c onC away busy
    show s.pushed cpu _ (s.tid c) ≠ []
    change s.tid c ≠ 0 at busy
    by_cases same : c = cpu
    · rw [same] at busy ⊢
      rw [s.pushed_self _ busy]
      exact List.cons_ne_nil _ _
    · apply s.pushed_ne_nil
      apply intact.entered c onC ?_ busy
      rw [← Function.update_of_ne same h.stage s.stage]
      exact away
  user := by
    intro c onC user
    change userMode (Function.update s.cpu cpu u.cpu c) = true at user
    by_cases same : c = cpu
    · rw [same, Function.update_self, userMode, entered.cop0, Function.update_self] at user
      exact absurd (user_entered _) (of_decide_eq_true user)
    · rw [Function.update_of_ne same] at user
      obtain ⟨stage, busy, none⟩ := intact.user c onC user
      refine ⟨(Function.update_of_ne same _ _).trans stage, busy, ?_⟩
      exact (s.pushed_other _ fun equal => same (intact.unique onC on busy equal)).trans none

end Trap

/-! ## Leaving -/

section Leave

variable {L : Layout} {cpus : Nat} {boot : Words} {s : Switching} {cpu : Nat}

open Switching

theorem idleContext_status (L : Layout) (boot : Words) : (idleContext L boot).status = 0xff01 := by
  simp only [idleContext, contextAt, bootMemory]
  rw [Function.update_of_ne (by omega), Function.update_self]

/-- `eret` runs, and the CPU has the context that its thread is to resume in. -/
theorem Intact.leave_runs (intact : Intact L cpus boot s) (few : cpus ≤ CONFIG_MAX_CPUS)
    (on : cpu < cpus) (away : s.stage cpu ≠ .running) :
    ∃ u, handleFinished L ⟨s.cpu cpu, s.mem⟩ = some u ∧
      Context.running u.cpu = s.resumes L boot cpu ∧
      u.mem = Function.update s.mem (L.row (s.tid cpu))
        (s.mem (frameTop L (s.tid cpu) (s.saved (s.tid cpu)) + 132)) ∧
      u.cpu.cop0 .prid = (s.cpu cpu).cop0 .prid ∧ u.cpu.cop0 .status &&& 0x2 = 0 := by
  have real := intact.tid_lt on
  have memory := intact.memory
  have pointer := memory.pointer real
  have run : ∀ {p : Nat} {x : Context}, s.mem (L.row (s.tid cpu)) = BitVec.ofNat 32 p →
      p % 4 = 0 → p + contextSize ≤ 2 ^ 32 →
      L.row (s.tid cpu) < p ∨ p + contextSize ≤ L.row (s.tid cpu) → contextAt s.mem p = x →
      x.status &&& 0xff11 = x.status → ∃ u, handleFinished L ⟨s.cpu cpu, s.mem⟩ = some u ∧
        Context.running u.cpu = x ∧
        u.mem = Function.update s.mem (L.row (s.tid cpu)) (s.mem (p + 132)) ∧
        u.cpu.cop0 .prid = (s.cpu cpu).cop0 .prid ∧ u.cpu.cop0 .status &&& 0x2 = 0 :=
    fun shown aligned room apart stored masked =>
      handleFinished_run (s := ⟨s.cpu cpu, s.mem⟩) (by omega) real (intact.prid cpu on)
        (memory.slots cpu on) shown aligned room apart stored masked
  have apart : ∀ {p : Nat}, (∀ a, p ≤ a → a < p + contextSize → L.InArea (s.tid cpu) a) →
      L.row (s.tid cpu) < p ∨ p + contextSize ≤ L.row (s.tid cpu) := by
    intro p inArea
    by_contra inside
    rw [not_or, not_lt, not_le] at inside
    exact Layout.area_row (inArea _ inside.1 inside.2) real real rfl
  by_cases idle : s.tid cpu = 0
  · have none : s.saved (s.tid cpu) = [] := by rw [idle, memory.unsaved]
    rw [none, frameTop_nil] at pointer ⊢
    rw [Switching.resumes, none]
    obtain ⟨bound, aligned⟩ := L.base_bound real
    refine run pointer aligned bound.le (apart fun a first last => ?_) ?_ ?_
    · obtain ⟨o, rfl⟩ := Nat.exists_eq_add_of_le first
      exact Layout.base_inArea (by omega)
    · rw [idle]
      exact memory.idle
    · rw [idleContext_status]
      decide
  · have stacked := memory.stacked _ (by omega) real
    have top := stacked.top_le
    obtain ⟨bound, -⟩ := L.base_bound real
    cases saved : s.saved (s.tid cpu) with
    | nil => exact absurd saved (intact.entered cpu on away idle)
    | cons y rest =>
        rw [saved] at pointer stacked top
        rw [frameTop_cons] at pointer top ⊢
        rw [Switching.resumes, saved]
        have covers : ∀ a, y.1 ≤ a → a < y.1 + contextSize → L.InArea (s.tid cpu) a :=
          fun a first last => stacked.inArea ⟨y, List.mem_cons_self, first, last⟩
        obtain ⟨-, stored, aligned, -, -, masked, -, -⟩ := stacked
        exact run pointer aligned (by omega) (apart covers) stored masked

/-- The saved contexts of the threads that are not leaving. -/
theorem popped_other {k : Nat} (other : k ≠ s.tid cpu) :
    Function.update s.saved (s.tid cpu) (s.saved (s.tid cpu)).tail k = s.saved k :=
  Function.update_of_ne other _ _

theorem Intact.leave_memory (intact : Intact L cpus boot s) (few : cpus ≤ CONFIG_MAX_CPUS)
    (on : cpu < cpus) (away : s.stage cpu ≠ .running) {mem : Words}
    (popped : mem = Function.update s.mem (L.row (s.tid cpu))
      (s.mem (frameTop L (s.tid cpu) (s.saved (s.tid cpu)) + 132))) :
    InMemory L cpus boot { s with
      mem := mem
      saved := Function.update s.saved (s.tid cpu) (s.saved (s.tid cpu)).tail } := by
  have real := intact.tid_lt on
  have memory := intact.memory
  have keeps : ∀ a, a ≠ L.row (s.tid cpu) → mem a = s.mem a := fun a other => by
    rw [popped, Function.update_of_ne other]
  have inside : 132 < contextSize := by decide
  refine
    { slots := fun c onC => (keeps _ (Layout.row_slot real (by omega)).symm).trans
        (memory.slots c onC)
      stacked := ?_
      sp := ?_
      idleRow := ?_
      idleLink := (keeps _ (base_ne_row inside (by decide) real)).trans memory.idleLink
      idle := ?_
      unsaved := ?_ }
  · intro k positive realK
    show Stacked L mem k (mem (L.row k)) (Function.update s.saved _ _ k)
    have stacked := memory.stacked k positive realK
    have frames : ∀ a, Covers (s.saved k) a → mem a = s.mem a := fun a covered =>
      keeps a (covers_ne_row stacked realK real covered)
    by_cases same : k = s.tid cpu
    · subst same
      rw [Function.update_self, popped, Function.update_self, ← popped]
      cases saved : s.saved (s.tid cpu) with
      | nil => exact absurd saved (intact.entered cpu on away (by omega))
      | cons y rest =>
          rw [saved] at stacked frames
          obtain ⟨-, -, -, -, -, -, -, below⟩ := stacked
          exact below.congr fun a ⟨x, there, covered⟩ =>
            frames a ⟨x, List.mem_cons_of_mem _ there, covered⟩
    · rw [popped_other same, keeps _ fun bad => same (Layout.row_injective bad)]
      exact stacked.congr frames
  · intro k positive realK live
    refine (keeps _ (base_ne_row (by omega) realK real)).trans (memory.sp k positive realK ?_)
    by_cases same : k = s.tid cpu
    · exact .inr ⟨cpu, on, same.symm⟩
    · rw [← popped_other same]
      exact live
  · show mem (L.row 0) = _
    by_cases same : s.tid cpu = 0
    · rw [popped, same, Function.update_self, memory.unsaved, frameTop_nil]
      exact memory.idleLink
    · exact (keeps _ fun bad => same (Layout.row_injective bad).symm).trans memory.idleRow
  · rw [← memory.idle]
    apply contextAt_congr
    intro b first last
    obtain ⟨o, rfl⟩ := Nat.exists_eq_add_of_le first
    exact keeps _ (base_ne_row (by omega) (by decide) real)
  · show Function.update s.saved _ _ 0 = []
    by_cases same : s.tid cpu = 0
    · rw [same, Function.update_self, memory.unsaved]
      rfl
    · rw [popped_other (Ne.symm same)]
      exact memory.unsaved

/-- A context of user mode is the only one of its thread. -/
theorem Intact.resumes_user (intact : Intact L cpus boot s) (on : cpu < cpus)
    (user : (s.resumes L boot cpu).status &&& 0x10 ≠ 0) :
    s.tid cpu ≠ 0 ∧ (s.saved (s.tid cpu)).tail = [] := by
  have idle : s.tid cpu ≠ 0 := by
    intro idle
    rw [Switching.resumes, idle, intact.memory.unsaved, idleContext_status] at user
    exact absurd (by decide) user
  refine ⟨idle, ?_⟩
  have stacked := intact.memory.stacked _ (by omega) (intact.tid_lt on)
  cases saved : s.saved (s.tid cpu) with
  | nil => rfl
  | cons y rest =>
      rw [Switching.resumes, saved] at user
      rw [saved] at stacked
      exact stacked.2.2.2.2.2.2.1 user

/-- **`eret`** keeps the invariant. -/
theorem Intact.leave (intact : Intact L cpus boot s) (few : cpus ≤ CONFIG_MAX_CPUS) (on : cpu < cpus)
    (away : s.stage cpu ≠ .running) {u : State}
    (resumed : Context.running u.cpu = s.resumes L boot cpu)
    (popped : u.mem = Function.update s.mem (L.row (s.tid cpu))
      (s.mem (frameTop L (s.tid cpu) (s.saved (s.tid cpu)) + 132)))
    (prid : u.cpu.cop0 .prid = (s.cpu cpu).cop0 .prid) :
    Intact L cpus boot { s with
      cpu := Function.update s.cpu cpu u.cpu
      mem := u.mem
      stage := Function.update s.stage cpu .running
      saved := Function.update s.saved (s.tid cpu) (s.saved (s.tid cpu)).tail } := by
  have elsewhere : ∀ c < cpus, c ≠ cpu → s.tid c ≠ 0 → s.tid c ≠ s.tid cpu :=
    fun c onC other busy same => other (intact.unique onC on busy same)
  refine
    { machine := intact.machine
      memory := (intact.leave_memory few on away popped).of_eq rfl rfl fun _ _ => rfl
      prid := ?_
      parked := ?_
      entered := ?_
      user := ?_ }
  · intro c onC
    show (Function.update s.cpu cpu u.cpu c).cop0 .prid >>> 24 = _
    by_cases same : c = cpu
    · rw [same, Function.update_self, prid]
      exact intact.prid cpu on
    · rw [Function.update_of_ne same]
      exact intact.prid c onC
  · intro k tid parked
    show Function.update s.saved _ _ k.toNat ≠ []
    rw [popped_other]
    · exact intact.parked k tid parked
    · intro same
      have positive := tid.1
      refine intact.not_parked on (by omega) ?_
      rw [← same, Int.toNat_of_nonneg (by omega)]
      exact parked
  · intro c onC awayC busy
    change s.tid c ≠ 0 at busy
    show Function.update s.saved _ _ (s.tid c) ≠ []
    by_cases same : c = cpu
    · rw [same] at awayC
      exact absurd (Function.update_self ..) awayC
    · rw [popped_other (elsewhere c onC same busy)]
      refine intact.entered c onC ?_ busy
      rw [← Function.update_of_ne same .running s.stage]
      exact awayC
  · intro c onC user
    change userMode (Function.update s.cpu cpu u.cpu c) = true at user
    show Function.update s.stage cpu .running c = .running ∧ s.tid c ≠ 0 ∧
      Function.update s.saved _ _ (s.tid c) = []
    by_cases same : c = cpu
    · subst same
      rw [Function.update_self] at user
      have bit : (s.resumes L boot c).status &&& 0x10 ≠ 0 := by
        rw [← resumed, Context.running, user_context]
        exact of_decide_eq_true user
      rw [Function.update_self, Function.update_self]
      exact ⟨rfl, intact.resumes_user on bit⟩
    · rw [Function.update_of_ne same] at user
      obtain ⟨stage, busy, none⟩ := intact.user c onC user
      exact ⟨(Function.update_of_ne same _ _).trans stage, busy,
        (popped_other (elsewhere c onC same busy)).trans none⟩

end Leave

end Buenos.Kernel
