/-
# Proc.Join -- who may join whom

Spawn, exit and join as a system of any number of processes.  `process_spawn` is
two steps, because the new entry is reserved before its parent field is written;
`process_join` is a test followed, when the test lets it through, by a wait for a
zombie.  A process in the middle of a call does nothing else.

The code knows processes only by their table index.  The ghost fields number the
spawns: `born p` is the number of the spawn that filled entry `p`, `spawner k` the
number of the process that made spawn `k`, `number k` the index it got.  Number 0
is the kernel thread that starts the first process.

`joinAllowed` compares a parent field that outlives the entry's process and that
starts as zero, so it answers for indices, not for processes.  `processJoin_correct`
says when the two coincide: not for an entry that is free or still being filled,
and not for one left behind by an earlier process with the caller's index.
-/
import Buenos.Proc.Process
import Buenos.Theory.Run
import Mathlib.Order.Basic

namespace Buenos.Proc.Join

open Buenos.Lib Buenos.Theory

set_option autoImplicit false

/-- What a process is doing: nothing yet, running, or inside a call. -/
inductive Ctl where
  | absent
  | idle
  | spawning (pid : Int)
  | joining (pid : Int)
  deriving DecidableEq

/-- One return of `process_join`: whose exit value went to whom. -/
structure Delivery where
  child : Nat
  receiver : Nat
  value : Int
  deriving DecidableEq

structure State where
  table : ProcessTable
  ctl : Int → Ctl
  clock : Nat
  born : Int → Nat
  spawner : Nat → Nat
  number : Nat → Int
  exited : Nat → Int
  delivered : List Delivery

inductive Act where
  | spawnAlloc (cur : Int)
  | spawnFill (cur : Int) (executable : Name)
  | finish (cur retval : Int)
  | join (cur pid : Int)
  | joinReturn (cur : Int)

/-- Only the kernel thread runs; no entry was ever used. -/
def boot : State where
  table := processInit zeroTable
  ctl := fun p => if p = kernelPid then .idle else .absent
  clock := 0
  born := fun _ => 0
  spawner := fun _ => 0
  number := fun _ => kernelPid
  exited := fun _ => 0
  delivered := []

/-- Entry `pid` was reserved for a process spawned by `cur`. -/
def reserve (s : State) (cur pid : Int) (table : ProcessTable) : State :=
  { s with
    table := table
    ctl := Function.update s.ctl cur (.spawning pid)
    clock := s.clock + 1
    born := Function.update s.born pid (s.clock + 1)
    spawner := Function.update s.spawner (s.clock + 1) (s.born cur)
    number := Function.update s.number (s.clock + 1) pid }

/-- The waiting process takes the exit value and frees the entry. -/
def collect (s : State) (cur pid : Int) : State :=
  { s with
    table := processReset s.table pid
    ctl := Function.update s.ctl cur .idle
    delivered := s.delivered ++ [⟨s.born pid, s.born cur, (s.table pid).retval⟩] }

def step (s : State) : Act → Option State
  | .spawnAlloc cur =>
      if s.ctl cur = .idle then
        match allocProcessId s.table with
        | .returned (pid, table) =>
            if pid = PROCESS_MAX_PROCESSES then some { s with table := table }
            else if pid > PROCESS_MAX_PROCESSES then none
            else some (reserve s cur pid table)
        | .stopped _ => none
      else none
  | .spawnFill cur executable =>
      match s.ctl cur with
      | .spawning pid =>
          some { s with
            table := Proc.spawnFill s.table cur pid executable
            ctl := Function.update (Function.update s.ctl cur .idle) pid .idle }
      | _ => none
  | .finish cur retval =>
      if s.ctl cur = .idle ∧ cur ≠ kernelPid then
        some { s with
          table := processFinish s.table cur retval
          ctl := Function.update s.ctl cur .absent
          exited := Function.update s.exited (s.born cur) retval }
      else none
  | .join cur pid =>
      if s.ctl cur = .idle then
        -- a rejected call returns PROCESS_ILLEGAL_JOIN at once
        if joinAllowed s.table cur pid then
          some { s with ctl := Function.update s.ctl cur (.joining pid) }
        else some s
      else none
  | .joinReturn cur =>
      match s.ctl cur with
      | .joining pid =>
          if (s.table pid).state = .zombie then some (collect s cur pid) else none
      | _ => none

def system : System State Act where
  initial := fun s => s = boot
  step := step

/-- Entry `p` holds a process. -/
def Occupied (s : State) (p : Int) : Prop :=
  0 ≤ p ∧ p < PROCESS_MAX_PROCESSES ∧ (s.table p).state ≠ .free

/-- Index `p` belongs to the kernel thread or to the process in entry `p`. -/
def Held (s : State) (p : Int) : Prop := p = kernelPid ∨ Occupied s p

/-- Entry `pid` holds a process that `cur` itself spawned and has not joined. -/
def OwnUnjoined (s : State) (cur pid : Int) : Prop :=
  Occupied s pid ∧ s.spawner (s.born pid) = s.born cur

/-- An entry whose parent field names the caller is in use, completely filled in,
and was spawned after the caller was. -/
def Fresh (s : State) (cur pid : Int) : Prop :=
  0 ≤ pid → pid < PROCESS_MAX_PROCESSES → (s.table pid).parent = cur →
    (s.table pid).state ≠ .free ∧ (∀ d, s.ctl d ≠ .spawning pid) ∧ s.born cur < s.born pid

/-- The guard on runs: only calls of `process_join` are restricted. -/
def JoinsFresh (s : State) : Act → Prop
  | .join cur pid => Fresh s cur pid
  | _ => True

/-! ## What the table says about the ghost history -/

structure Inv (s : State) : Prop where
  held_number : ∀ p, Held s p → s.number (s.born p) = p
  held_le : ∀ p, Held s p → s.born p ≤ s.clock
  occupied_pos : ∀ p, Occupied s p → 0 < s.born p
  spawner_lt : ∀ k, 0 < k → k ≤ s.clock → s.spawner k < k
  active : ∀ c, s.ctl c ≠ .absent →
    c = kernelPid ∨ (0 ≤ c ∧ c < PROCESS_MAX_PROCESSES ∧ (s.table c).state = .running)
  spawning : ∀ c q, s.ctl c = .spawning q →
    0 ≤ q ∧ q < PROCESS_MAX_PROCESSES ∧ (s.table q).state = .running ∧ s.ctl q = .absent ∧
      s.spawner (s.born q) = s.born c
  filled : ∀ q, Occupied s q → (∀ d, s.ctl d ≠ .spawning q) →
    (s.table q).parent = s.number (s.spawner (s.born q))
  latest : ∀ p k, Held s p → s.born p < k → k ≤ s.clock → s.number (s.spawner k) = p →
    s.spawner k = s.born p
  exit_value : ∀ p : Int, 0 ≤ p → p < PROCESS_MAX_PROCESSES → (s.table p).state = .zombie →
    (s.table p).retval = s.exited (s.born p)

namespace Inv

variable {s : State}

theorem held_of_active (inv : Inv s) {c : Int} (active : s.ctl c ≠ .absent) : Held s c := by
  rcases inv.active c active with rfl | ⟨low, high, running⟩
  · exact Or.inl rfl
  · exact Or.inr ⟨low, high, by simp [running]⟩

/-- Two indices in use hold different processes. -/
theorem born_injective (inv : Inv s) {p q : Int} (hp : Held s p) (hq : Held s q)
    (same : s.born p = s.born q) : p = q := by
  rw [← inv.held_number p hp, same, inv.held_number q hq]

end Inv

theorem not_occupied_boot (p : Int) : ¬ Occupied boot p := by
  rintro ⟨-, -, used⟩
  exact used (by simp [boot, processInit_zeroTable, zeroTable])

theorem inv_boot : Inv boot where
  held_number := by
    rintro p (rfl | used)
    · rfl
    · exact absurd used (not_occupied_boot p)
  held_le := fun _ _ => Nat.le_refl 0
  occupied_pos := fun p used => absurd used (not_occupied_boot p)
  spawner_lt := fun k pos le => absurd le (by simp only [boot]; omega)
  active := by
    intro c active
    left
    by_contra other
    simp [boot, other] at active
  spawning := by
    intro c q ctl
    simp only [boot] at ctl
    split at ctl <;> cases ctl
  filled := fun q used => absurd used (not_occupied_boot q)
  latest := fun p k _ _ le => absurd le (by simp only [boot] at *; omega)
  exit_value := fun p low high zombie =>
    absurd ⟨low, high, by simp [zombie]⟩ (not_occupied_boot p)

/-! ## Every step keeps it -/

/-- What a successful reservation does to the table. -/
theorem reserve_cases {s t : State} {cur : Int} (taken : step s (.spawnAlloc cur) = some t) :
    s.ctl cur = .idle ∧
      ((∃ table, t = { s with table := table } ∧
          ∀ p : Int, p < PROCESS_MAX_PROCESSES → table p = s.table p) ∨
        ∃ pid : Int, 0 ≤ pid ∧ pid < PROCESS_MAX_PROCESSES ∧ (s.table pid).state = .free ∧
          t = reserve s cur pid
            (Function.update s.table pid { s.table pid with state := .running })) := by
  simp only [step] at taken
  split at taken
  · rename_i idle
    refine ⟨idle, ?_⟩
    split at taken
    · rename_i pid table ran
      rcases allocProcessId_cases ran with ⟨i, bound, rfl, free, rfl⟩ | ⟨rfl, rfl⟩
      · split at taken
        · rename_i full
          cases taken
          exact Or.inl ⟨_, rfl, fun p below => Function.update_of_ne (by omega) _ _⟩
        · rename_i room
          split at taken
          · cases taken
          · cases taken
            exact Or.inr ⟨i, by omega, by omega, free, rfl⟩
      · rw [if_neg (by omega), if_pos (by omega)] at taken
        cases taken
    · cases taken
  · cases taken

section Reserve

variable {s : State} {cur pid : Int}

/-- The state after `pid` was reserved for `cur`. -/
abbrev reserved (s : State) (cur pid : Int) : State :=
  reserve s cur pid (Function.update s.table pid { s.table pid with state := .running })

theorem occupied_reserved (low : 0 ≤ pid) (high : pid < PROCESS_MAX_PROCESSES) (p : Int) :
    Occupied (reserved s cur pid) p ↔ p = pid ∨ Occupied s p := by
  by_cases same : p = pid
  · subst same
    simp [Occupied, reserve, low, high]
  · simp [Occupied, reserve, same]

theorem held_reserved (low : 0 ≤ pid) (high : pid < PROCESS_MAX_PROCESSES) (p : Int) :
    Held (reserved s cur pid) p ↔ p = pid ∨ Held s p := by
  simp only [Held, occupied_reserved low high]
  tauto

theorem inv_reserve (inv : Inv s) (idle : s.ctl cur = .idle)
    (low : 0 ≤ pid) (high : pid < PROCESS_MAX_PROCESSES) (free : (s.table pid).state = .free) :
    Inv (reserved s cur pid) := by
  have curHeld : Held s cur := inv.held_of_active (by simp [idle])
  have curLe := inv.held_le cur curHeld
  have notHeld : ¬ Held s pid := by
    rintro (rfl | ⟨-, -, used⟩)
    · simp [kernelPid] at low
    · exact used free
  have heldNe : ∀ p, Held s p → p ≠ pid := by
    rintro p held rfl
    exact notHeld held
  have pidAbsent : s.ctl pid = .absent := by
    by_contra active
    exact notHeld (inv.held_of_active active)
  have curNe : cur ≠ pid := heldNe cur curHeld
  refine ⟨?_, ?_, ?_, ?_, ?_, ?_, ?_, ?_, ?_⟩
  · intro p held
    rcases (held_reserved low high p).1 held with rfl | held
    · simp [reserve]
    · have le := inv.held_le p held
      simp [reserve, heldNe p held, show s.born p ≠ s.clock + 1 by omega, inv.held_number p held]
  · intro p held
    rcases (held_reserved low high p).1 held with rfl | held
    · simp [reserve]
    · have le := inv.held_le p held
      simp only [reserve, Function.update_of_ne (heldNe p held)]
      omega
  · intro p used
    rcases (occupied_reserved low high p).1 used with rfl | used
    · simp [reserve]
    · simpa [reserve, heldNe p (Or.inr used)] using inv.occupied_pos p used
  · intro k pos le
    simp only [reserve] at le ⊢
    by_cases last : k = s.clock + 1
    · simp only [last, Function.update_self]
      omega
    · rw [Function.update_of_ne last]
      exact inv.spawner_lt k pos (by omega)
  · intro c active
    by_cases other : c = cur
    · subst other
      rcases inv.active c (by simp [idle]) with kernel | ⟨l, h, running⟩
      · exact Or.inl kernel
      · exact Or.inr ⟨l, h, by simpa [reserve, curNe] using running⟩
    · rcases inv.active c (by simpa [reserve, other] using active) with kernel | ⟨l, h, running⟩
      · exact Or.inl kernel
      · refine Or.inr ⟨l, h, ?_⟩
        simpa [reserve, heldNe c (Or.inr ⟨l, h, by simp [running]⟩)] using running
  · intro c q ctl
    by_cases other : c = cur
    · subst other
      simp only [reserve, Function.update_self, Ctl.spawning.injEq] at ctl
      subst ctl
      refine ⟨low, high, by simp [reserve], ?_, ?_⟩
      · simpa [reserve, Ne.symm curNe] using pidAbsent
      · simp [reserve, curNe]
    · simp only [reserve, Function.update_of_ne other] at ctl
      obtain ⟨l, h, running, absent, mine⟩ := inv.spawning c q ctl
      have qHeld : Held s q := Or.inr ⟨l, h, by simp [running]⟩
      have qNe := heldNe q qHeld
      have qLe := inv.held_le q qHeld
      have cNe := heldNe c (inv.held_of_active (by simp [ctl]))
      have qNeCur : q ≠ cur := by
        rintro rfl
        rw [idle] at absent
        cases absent
      refine ⟨l, h, by simpa [reserve, qNe] using running, ?_, ?_⟩
      · simpa [reserve, qNeCur] using absent
      · simpa [reserve, qNe, cNe, show s.born q ≠ s.clock + 1 by omega] using mine
  · intro q used quiet
    rcases (occupied_reserved low high q).1 used with rfl | used
    · exact absurd (by simp [reserve]) (quiet cur)
    · have qHeld : Held s q := Or.inr used
      have qNe := heldNe q qHeld
      have qLe := inv.held_le q qHeld
      have qLt := inv.spawner_lt (s.born q) (inv.occupied_pos q used) qLe
      have quietOld : ∀ d, s.ctl d ≠ .spawning q := by
        intro d spawning
        by_cases other : d = cur
        · rw [other, idle] at spawning
          cases spawning
        · exact quiet d (by simpa [reserve, other] using spawning)
      have filled := inv.filled q used quietOld
      simpa [reserve, qNe, show s.born q ≠ s.clock + 1 by omega,
        show s.spawner (s.born q) ≠ s.clock + 1 by omega] using filled
  · intro p k held less le named
    simp only [reserve] at less le named ⊢
    rcases (held_reserved low high p).1 held with rfl | held
    · simp only [Function.update_self] at less
      omega
    · have pNe := heldNe p held
      rw [Function.update_of_ne pNe] at less ⊢
      by_cases last : k = s.clock + 1
      · -- the new process is the caller's, and its index is the caller's index
        simp only [last, Function.update_self,
          Function.update_of_ne (show s.born cur ≠ s.clock + 1 by omega),
          inv.held_number cur curHeld] at named ⊢
        rw [named]
      · rw [Function.update_of_ne last] at named ⊢
        have kLt := inv.spawner_lt k (by omega) (by omega)
        rw [Function.update_of_ne (by omega)] at named
        exact inv.latest p k held less (by omega) named
  · intro p l h zombie
    by_cases same : p = pid
    · subst same
      simp [reserve] at zombie
    · have used : Occupied s p := ⟨l, h, by simp_all [reserve]⟩
      simpa [reserve, same] using inv.exit_value p l h (by simpa [reserve, same] using zombie)

end Reserve

section Others

variable {s : State}

/-- A change beyond the end of the table is not seen. -/
theorem inv_table (inv : Inv s) {table : ProcessTable}
    (same : ∀ p : Int, p < PROCESS_MAX_PROCESSES → table p = s.table p) :
    Inv { s with table := table } := by
  have occupied : ∀ p, Occupied { s with table := table } p ↔ Occupied s p := by
    intro p
    simp only [Occupied]
    constructor
    · rintro ⟨l, h, used⟩
      exact ⟨l, h, same p h ▸ used⟩
    · rintro ⟨l, h, used⟩
      exact ⟨l, h, (same p h).symm ▸ used⟩
  have held : ∀ p, Held { s with table := table } p ↔ Held s p := fun p => by
    simp only [Held, occupied]
  refine ⟨fun p hp => inv.held_number p ((held p).1 hp), fun p hp => inv.held_le p ((held p).1 hp),
    fun p hp => inv.occupied_pos p ((occupied p).1 hp), inv.spawner_lt, ?_, ?_, ?_,
    fun p k hp => inv.latest p k ((held p).1 hp), ?_⟩
  · intro c active
    rcases inv.active c active with kernel | ⟨l, h, running⟩
    · exact Or.inl kernel
    · exact Or.inr ⟨l, h, by simpa [same c h] using running⟩
  · intro c q ctl
    obtain ⟨l, h, running, rest⟩ := inv.spawning c q ctl
    exact ⟨l, h, by simpa [same q h] using running, rest⟩
  · intro q used quiet
    have filled := inv.filled q ((occupied q).1 used) quiet
    simpa [same q used.2.1] using filled
  · intro p l h zombie
    simpa [same p h] using inv.exit_value p l h (by simpa [same p h] using zombie)

theorem inv_spawnFill (inv : Inv s) {cur pid : Int} (ctl : s.ctl cur = .spawning pid)
    (executable : Name) :
    Inv { s with
      table := Proc.spawnFill s.table cur pid executable
      ctl := Function.update (Function.update s.ctl cur .idle) pid .idle } := by
  obtain ⟨low, high, running, absent, mine⟩ := inv.spawning cur pid ctl
  have curHeld : Held s cur := inv.held_of_active (by simp [ctl])
  have curNe : cur ≠ pid := by
    rintro rfl
    rw [ctl] at absent
    cases absent
  have state : ∀ p, (Proc.spawnFill s.table cur pid executable p).state = (s.table p).state := by
    intro p
    by_cases same : p = pid
    · subst same; simp [Proc.spawnFill]
    · simp [Proc.spawnFill, same]
  have retval : ∀ p, (Proc.spawnFill s.table cur pid executable p).retval = (s.table p).retval := by
    intro p
    by_cases same : p = pid
    · subst same; simp [Proc.spawnFill]
    · simp [Proc.spawnFill, same]
  have ctlOld : ∀ c, c ≠ pid → c ≠ cur →
      Function.update (Function.update s.ctl cur .idle) pid .idle c = s.ctl c :=
    fun c ne ne' => by rw [Function.update_of_ne ne, Function.update_of_ne ne']
  have busy : ∀ c q, Function.update (Function.update s.ctl cur .idle) pid .idle c = .spawning q →
      s.ctl c = .spawning q ∧ c ≠ pid ∧ c ≠ cur := by
    intro c q spawning
    by_cases first : c = pid
    · simp [first] at spawning
    · by_cases second : c = cur
      · simp [second, curNe] at spawning
      · exact ⟨(ctlOld c first second) ▸ spawning, first, second⟩
  refine ⟨?_, ?_, ?_, inv.spawner_lt, ?_, ?_, ?_, ?_, ?_⟩
  · exact fun p held => inv.held_number p (by simpa only [Held, Occupied, state] using held)
  · exact fun p held => inv.held_le p (by simpa only [Held, Occupied, state] using held)
  · exact fun p used => inv.occupied_pos p (by simpa only [Occupied, state] using used)
  · intro c active
    simp only [state]
    by_cases first : c = pid
    · exact Or.inr ⟨first ▸ low, first ▸ high, first ▸ running⟩
    · by_cases second : c = cur
      · exact second ▸ inv.active cur (by simp [ctl])
      · exact inv.active c (by simpa [first, second] using active)
  · intro c q spawning
    obtain ⟨old, cPid, -⟩ := busy c q spawning
    obtain ⟨l, h, run, gone, own⟩ := inv.spawning c q old
    have qNe : q ≠ pid := by
      rintro rfl
      have := inv.born_injective (inv.held_of_active (c := c) (by simp [old])) curHeld
        (own.symm.trans mine)
      exact absurd this (busy c q spawning).2.2
    have qNeCur : q ≠ cur := by
      rintro rfl
      rw [ctl] at gone
      cases gone
    exact ⟨l, h, by simpa only [state] using run, by simpa [qNe, qNeCur] using gone, own⟩
  · intro q used quiet
    have used' : Occupied s q := by simpa only [Occupied, state] using used
    by_cases same : q = pid
    · subst same
      simp [Proc.spawnFill, mine, inv.held_number cur curHeld]
    · have quietOld : ∀ d, s.ctl d ≠ .spawning q := by
        intro d spawning
        by_cases first : d = pid
        · rw [first, absent] at spawning
          cases spawning
        · by_cases second : d = cur
          · rw [second, ctl] at spawning
            cases spawning
            exact same rfl
          · exact quiet d (by simpa [first, second] using spawning)
      simpa [Proc.spawnFill, same] using inv.filled q used' quietOld
  · exact fun p k held => inv.latest p k (by simpa only [Held, Occupied, state] using held)
  · intro p l h zombie
    simp only [state, retval] at zombie ⊢
    exact inv.exit_value p l h zombie

theorem inv_finish (inv : Inv s) {cur : Int} (idle : s.ctl cur = .idle) (process : cur ≠ kernelPid)
    (retval : Int) :
    Inv { s with
      table := processFinish s.table cur retval
      ctl := Function.update s.ctl cur .absent
      exited := Function.update s.exited (s.born cur) retval } := by
  have curHeld : Held s cur := inv.held_of_active (by simp [idle])
  obtain ⟨low, high, running⟩ := (inv.active cur (by simp [idle])).resolve_left process
  have freeIff : ∀ p, (processFinish s.table cur retval p).state = .free ↔
      (s.table p).state = .free := by
    intro p
    by_cases same : p = cur
    · subst same; simp [processFinish, running]
    · simp [processFinish, same]
  have occupied : ∀ p, Occupied { s with
      table := processFinish s.table cur retval
      ctl := Function.update s.ctl cur .absent
      exited := Function.update s.exited (s.born cur) retval } p ↔ Occupied s p := fun p => by
    simp only [Occupied, ne_eq, freeIff]
  have held : ∀ p, Held { s with
      table := processFinish s.table cur retval
      ctl := Function.update s.ctl cur .absent
      exited := Function.update s.exited (s.born cur) retval } p ↔ Held s p := fun p => by
    simp only [Held, occupied]
  refine ⟨fun p hp => inv.held_number p ((held p).1 hp), fun p hp => inv.held_le p ((held p).1 hp),
    fun p hp => inv.occupied_pos p ((occupied p).1 hp), inv.spawner_lt, ?_, ?_, ?_,
    fun p k hp => inv.latest p k ((held p).1 hp), ?_⟩
  · intro c active
    have other : c ≠ cur := by
      rintro rfl
      simp at active
    rcases inv.active c (by simpa [other] using active) with kernel | ⟨l, h, run⟩
    · exact Or.inl kernel
    · exact Or.inr ⟨l, h, by simpa [processFinish, other] using run⟩
  · intro c q ctl
    have other : c ≠ cur := by
      rintro rfl
      simp at ctl
    obtain ⟨l, h, run, absent, mine⟩ := inv.spawning c q (by simpa [other] using ctl)
    have qNe : q ≠ cur := by
      rintro rfl
      rw [idle] at absent
      cases absent
    exact ⟨l, h, by simpa [processFinish, qNe] using run, by simpa [qNe] using absent, mine⟩
  · intro q used quiet
    have quietOld : ∀ d, s.ctl d ≠ .spawning q := by
      intro d spawning
      have other : d ≠ cur := by
        rintro rfl
        rw [idle] at spawning
        cases spawning
      exact quiet d (by simpa [other] using spawning)
    have filled := inv.filled q ((occupied q).1 used) quietOld
    by_cases same : q = cur
    · subst same; simpa [processFinish] using filled
    · simpa [processFinish, same] using filled
  · intro p l h zombie
    by_cases same : p = cur
    · subst same; simp [processFinish]
    · have zombieOld : (s.table p).state = .zombie := by simpa [processFinish, same] using zombie
      have ne : s.born p ≠ s.born cur := fun eq =>
        same (inv.born_injective (Or.inr ⟨l, h, by simp [zombieOld]⟩) curHeld eq)
      simpa [processFinish, same, ne] using inv.exit_value p l h zombieOld

/-- A process that starts to wait, or does not. -/
theorem inv_join (inv : Inv s) {cur : Int} (idle : s.ctl cur = .idle) (pid : Int) :
    Inv { s with ctl := Function.update s.ctl cur (.joining pid) } := by
  have spawningIff : ∀ c q, Function.update s.ctl cur (.joining pid) c = .spawning q ↔
      s.ctl c = .spawning q := by
    intro c q
    by_cases same : c = cur
    · subst same; simp [idle]
    · simp [same]
  refine ⟨inv.held_number, inv.held_le, inv.occupied_pos, inv.spawner_lt, ?_, ?_, ?_, inv.latest,
    inv.exit_value⟩
  · intro c active
    by_cases same : c = cur
    · exact same ▸ inv.active cur (by simp [idle])
    · exact inv.active c (by simpa [same] using active)
  · intro c q ctl
    obtain ⟨l, h, run, absent, mine⟩ := inv.spawning c q ((spawningIff c q).1 ctl)
    have qNe : q ≠ cur := by
      rintro rfl
      rw [idle] at absent
      cases absent
    exact ⟨l, h, run, by simpa [qNe] using absent, mine⟩
  · exact fun q used quiet => inv.filled q used fun d => by simpa only [ne_eq, spawningIff] using quiet d

theorem inv_collect (inv : Inv s) {cur pid : Int} (ctl : s.ctl cur = .joining pid)
    (zombie : (s.table pid).state = .zombie) : Inv (collect s cur pid) := by
  have occupied : ∀ p, Occupied (collect s cur pid) p ↔ p ≠ pid ∧ Occupied s p := by
    intro p
    by_cases same : p = pid
    · subst same; simp [Occupied, collect, processReset]
    · simp [Occupied, collect, processReset, same]
  have held : ∀ p, Held (collect s cur pid) p → Held s p := by
    rintro p (kernel | used)
    · exact Or.inl kernel
    · exact Or.inr ((occupied p).1 used).2
  have spawningIff : ∀ c q, (collect s cur pid).ctl c = .spawning q ↔ s.ctl c = .spawning q := by
    intro c q
    by_cases same : c = cur
    · subst same; simp [collect, ctl]
    · simp [collect, same]
  refine ⟨fun p hp => inv.held_number p (held p hp), fun p hp => inv.held_le p (held p hp),
    fun p hp => inv.occupied_pos p ((occupied p).1 hp).2, inv.spawner_lt, ?_, ?_, ?_,
    fun p k hp => inv.latest p k (held p hp), ?_⟩
  · intro c active
    have activeOld : s.ctl c ≠ .absent := by
      by_cases same : c = cur
      · simp [same, ctl]
      · simpa [collect, same] using active
    rcases inv.active c activeOld with kernel | ⟨l, h, running⟩
    · exact Or.inl kernel
    · have ne : c ≠ pid := by
        rintro rfl
        rw [zombie] at running
        cases running
      exact Or.inr ⟨l, h, by simpa [collect, processReset, ne] using running⟩
  · intro c q spawning
    obtain ⟨l, h, run, absent, mine⟩ := inv.spawning c q ((spawningIff c q).1 spawning)
    have qNe : q ≠ pid := by
      rintro rfl
      rw [zombie] at run
      cases run
    have qNeCur : q ≠ cur := by
      rintro rfl
      rw [ctl] at absent
      cases absent
    exact ⟨l, h, by simpa [collect, processReset, qNe] using run,
      by simpa [collect, qNeCur] using absent, mine⟩
  · intro q used quiet
    obtain ⟨ne, usedOld⟩ := (occupied q).1 used
    have filled := inv.filled q usedOld fun d => by
      simpa only [ne_eq, spawningIff] using quiet d
    simpa [collect, processReset, ne] using filled
  · intro p l h zombie'
    by_cases same : p = pid
    · subst same; simp [collect, processReset] at zombie'
    · simpa [collect, processReset, same] using
        inv.exit_value p l h (by simpa [collect, processReset, same] using zombie')

end Others

/-- **One step keeps the invariant.** -/
theorem inv_step {s t : State} {a : Act} (inv : Inv s) (taken : step s a = some t) : Inv t := by
  cases a with
  | spawnAlloc cur =>
      obtain ⟨idle, ⟨table, rfl, same⟩ | ⟨pid, low, high, free, rfl⟩⟩ := reserve_cases taken
      · exact inv_table inv same
      · exact inv_reserve inv idle low high free
  | spawnFill cur executable =>
      simp only [step] at taken
      split at taken
      · rename_i pid ctl
        cases taken
        exact inv_spawnFill inv ctl executable
      · cases taken
  | finish cur retval =>
      simp only [step] at taken
      split at taken
      · rename_i ready
        cases taken
        exact inv_finish inv ready.1 ready.2 retval
      · cases taken
  | join cur pid =>
      simp only [step] at taken
      split at taken
      · rename_i idle
        split at taken
        · cases taken
          exact inv_join inv idle pid
        · cases taken
          exact inv
      · cases taken
  | joinReturn cur =>
      simp only [step] at taken
      split at taken
      · rename_i pid ctl
        split at taken
        · rename_i zombie
          cases taken
          exact inv_collect inv ctl zombie
        · cases taken
      · cases taken

theorem inv_reachable {s : State} (reached : system.Reachable s) : Inv s := by
  refine System.Reachable.invariant (I := Inv) ?_ (fun _ _ _ inv taken => inv_step inv taken) reached
  rintro s rfl
  exact inv_boot

/-! ## When the test answers for processes -/

/-- An entry filled after the caller, with the caller's index in its parent field,
was spawned by the caller: indices are not reused while their process lives. -/
theorem own_of_fresh {s : State} (inv : Inv s) {cur pid : Int} (idle : s.ctl cur = .idle)
    (fresh : Fresh s cur pid) (allowed : joinAllowed s.table cur pid = true) :
    OwnUnjoined s cur pid := by
  obtain ⟨low, high, named⟩ := joinAllowed_iff.1 allowed
  obtain ⟨used, quiet, later⟩ := fresh low high named
  have occupied : Occupied s pid := ⟨low, high, used⟩
  have curHeld := inv.held_of_active (c := cur) (by simp [idle])
  have filled := inv.filled pid occupied quiet
  exact ⟨occupied, inv.latest cur _ curHeld later (inv.held_le pid (Or.inr occupied))
    (filled.symm.trans named)⟩

/-- The caller's own unjoined process passes the test. -/
theorem allowed_of_own {s : State} (inv : Inv s) {cur pid : Int} (idle : s.ctl cur = .idle)
    (own : OwnUnjoined s cur pid) :
    joinAllowed s.table cur pid = true ∧ Fresh s cur pid := by
  obtain ⟨occupied, mine⟩ := own
  have curHeld := inv.held_of_active (c := cur) (by simp [idle])
  have quiet : ∀ d, s.ctl d ≠ .spawning pid := by
    intro d spawning
    obtain ⟨-, -, -, -, other⟩ := inv.spawning d pid spawning
    have : d = cur := inv.born_injective (inv.held_of_active (by simp [spawning])) curHeld
      (other.symm.trans mine)
    rw [this, idle] at spawning
    cases spawning
  have filled := inv.filled pid occupied quiet
  rw [mine, inv.held_number cur curHeld] at filled
  have later : s.born cur < s.born pid := mine ▸ inv.spawner_lt (s.born pid)
    (inv.occupied_pos pid occupied) (inv.held_le pid (Or.inr occupied))
  exact ⟨joinAllowed_iff.2 ⟨occupied.1, occupied.2.1, filled⟩,
    fun _ _ _ => ⟨occupied.2.2, quiet, later⟩⟩

theorem allowed_iff_own {s : State} (inv : Inv s) {cur pid : Int} (idle : s.ctl cur = .idle) :
    (joinAllowed s.table cur pid = true ↔ OwnUnjoined s cur pid) ↔ Fresh s cur pid := by
  constructor
  · intro agrees low high named
    have own := agrees.1 (joinAllowed_iff.2 ⟨low, high, named⟩)
    exact (allowed_of_own inv idle own).2 low high named
  · intro fresh
    exact ⟨own_of_fresh inv idle fresh, fun own => (allowed_of_own inv idle own).1⟩

/-! ## Exit values -/

/-- In guarded runs a waiting process waits for its own child, and what was
delivered is gone from the table. -/
structure DeliveryInv (s : State) : Prop where
  base : Inv s
  waiting : ∀ c q, s.ctl c = .joining q → OwnUnjoined s c q
  once : (s.delivered.map Delivery.child).Nodup
  correct : ∀ d ∈ s.delivered, d.receiver = s.spawner d.child ∧ d.value = s.exited d.child
  gone : ∀ d ∈ s.delivered, 0 < d.child ∧ d.child ≤ s.clock ∧
    ∀ p, Held s p → s.born p ≠ d.child

theorem deliveryInv_boot : DeliveryInv boot where
  base := inv_boot
  waiting := by
    intro c q ctl
    simp only [boot] at ctl
    split at ctl <;> cases ctl
  once := List.nodup_nil
  correct := fun d member => absurd member (List.not_mem_nil)
  gone := fun d member => absurd member (List.not_mem_nil)

/-- What the delivery facts need of a step that delivers nothing. -/
theorem deliveryInv_frame {s t : State} (inv : DeliveryInv s) (base : Inv t)
    (delivered : t.delivered = s.delivered) (clock : s.clock ≤ t.clock)
    (waiting : ∀ c q, t.ctl c = .joining q → OwnUnjoined t c q)
    (spawner : ∀ k, k ≤ s.clock → t.spawner k = s.spawner k)
    (exited : ∀ k, (∀ p, Held s p → s.born p ≠ k) → t.exited k = s.exited k)
    (held : ∀ p, Held t p → t.born p = s.born p ∧ Held s p ∨ s.clock < t.born p) :
    DeliveryInv t := by
  refine ⟨base, waiting, delivered ▸ inv.once, ?_, ?_⟩
  · intro d member
    rw [delivered] at member
    obtain ⟨-, le, other⟩ := inv.gone d member
    rw [spawner _ le, exited _ other]
    exact inv.correct d member
  · intro d member
    rw [delivered] at member
    obtain ⟨pos, le, other⟩ := inv.gone d member
    refine ⟨pos, Nat.le_trans le clock, fun p heldT => ?_⟩
    rcases held p heldT with ⟨same, heldS⟩ | later
    · exact same ▸ other p heldS
    · omega

theorem deliveryInv_step {s t : State} {a : Act} (inv : DeliveryInv s) (fresh : JoinsFresh s a)
    (taken : step s a = some t) : DeliveryInv t := by
  have base := inv.base
  have kept := inv_step base taken
  cases a with
  | spawnAlloc cur =>
      obtain ⟨idle, ⟨table, rfl, same⟩ | ⟨pid, low, high, free, rfl⟩⟩ := reserve_cases taken
      · have occupied : ∀ p, Occupied { s with table := table } p ↔ Occupied s p := by
          intro p
          simp only [Occupied]
          constructor <;> rintro ⟨l, h, used⟩ <;> exact ⟨l, h, by simpa [same p h] using used⟩
        refine deliveryInv_frame inv kept rfl (Nat.le_refl _) (fun c q ctl => ?_) (fun _ _ => rfl)
          (fun _ _ => rfl) (fun p held => Or.inl ⟨rfl, by simpa only [Held, occupied] using held⟩)
        exact ⟨(occupied q).2 (inv.waiting c q ctl).1, (inv.waiting c q ctl).2⟩
      · have bornOld : ∀ p, Held s p → p ≠ pid := by
          rintro p (rfl | ⟨-, -, used⟩) rfl
          · simp [kernelPid] at low
          · exact used free
        refine deliveryInv_frame inv kept rfl (Nat.le_succ _) (fun c q ctl => ?_)
          (fun k le => Function.update_of_ne (by omega) _ _) (fun _ _ => rfl) (fun p held => ?_)
        · have other : c ≠ cur := by
            rintro rfl
            simp [reserve] at ctl
          have ctlOld : s.ctl c = .joining q := by simpa [reserve, other] using ctl
          obtain ⟨used, mine⟩ := inv.waiting c q ctlOld
          have qLe := base.held_le q (Or.inr used)
          have cNe := bornOld c (base.held_of_active (by simp [ctlOld]))
          refine ⟨(occupied_reserved low high q).2 (Or.inr used), ?_⟩
          simpa [reserve, bornOld q (Or.inr used), cNe, show s.born q ≠ s.clock + 1 by omega]
            using mine
        · rcases (held_reserved low high p).1 held with rfl | heldOld
          · right; simp [reserve]
          · left; exact ⟨by simp [reserve, bornOld p heldOld], heldOld⟩
  | spawnFill cur executable =>
      simp only [step] at taken
      split at taken
      · rename_i pid ctl
        cases taken
        have state : ∀ p,
            (Proc.spawnFill s.table cur pid executable p).state = (s.table p).state := by
          intro p
          by_cases same : p = pid
          · subst same; simp [Proc.spawnFill]
          · simp [Proc.spawnFill, same]
        refine deliveryInv_frame inv kept rfl (Nat.le_refl _) (fun c q ctl' => ?_) (fun _ _ => rfl)
          (fun _ _ => rfl) (fun p held => Or.inl ⟨rfl, by
            simpa only [Held, Occupied, state] using held⟩)
        have ctlOld : s.ctl c = .joining q := by
          by_cases first : c = pid
          · simp [first] at ctl'
          · by_cases second : c = cur
            · subst second; simp [first] at ctl'
            · simpa [first, second] using ctl'
        obtain ⟨used, mine⟩ := inv.waiting c q ctlOld
        exact ⟨by simpa only [Occupied, state] using used, mine⟩
      · cases taken
  | finish cur retval =>
      simp only [step] at taken
      split at taken
      · rename_i ready
        cases taken
        obtain ⟨-, -, running⟩ := (base.active cur (by simp [ready.1])).resolve_left ready.2
        have freeIff : ∀ p, (processFinish s.table cur retval p).state = .free ↔
            (s.table p).state = .free := by
          intro p
          by_cases same : p = cur
          · subst same; simp [processFinish, running]
          · simp [processFinish, same]
        refine deliveryInv_frame inv kept rfl (Nat.le_refl _) (fun c q ctl' => ?_) (fun _ _ => rfl)
          (fun k other => ?_) (fun p held => Or.inl ⟨rfl, by
            simpa only [Held, Occupied, ne_eq, freeIff] using held⟩)
        · have other : c ≠ cur := by
            rintro rfl
            simp at ctl'
          obtain ⟨used, mine⟩ := inv.waiting c q (by simpa [other] using ctl')
          exact ⟨by simpa only [Occupied, ne_eq, freeIff] using used, mine⟩
        · exact Function.update_of_ne
            (Ne.symm (other cur (base.held_of_active (by simp [ready.1])))) _ _
      · cases taken
  | join cur pid =>
      simp only [step] at taken
      split at taken
      · rename_i idle
        split at taken
        · rename_i allowed
          cases taken
          refine deliveryInv_frame inv kept rfl (Nat.le_refl _) (fun c q ctl' => ?_) (fun _ _ => rfl)
            (fun _ _ => rfl) (fun p held => Or.inl ⟨rfl, held⟩)
          by_cases same : c = cur
          · subst same
            simp only [Function.update_self, Ctl.joining.injEq] at ctl'
            exact ctl' ▸ own_of_fresh base idle fresh allowed
          · exact inv.waiting c q (by simpa [same] using ctl')
        · cases taken
          exact inv
      · cases taken
  | joinReturn cur =>
      simp only [step] at taken
      split at taken
      · rename_i pid ctl
        split at taken
        · rename_i zombie
          cases taken
          obtain ⟨used, mine⟩ := inv.waiting cur pid ctl
          have usedHeld : Held s pid := Or.inr used
          have occupied : ∀ p, Occupied (collect s cur pid) p ↔ p ≠ pid ∧ Occupied s p := by
            intro p
            by_cases same : p = pid
            · subst same; simp [Occupied, collect, processReset]
            · simp [Occupied, collect, processReset, same]
          have heldOld : ∀ p, Held (collect s cur pid) p → Held s p ∧ p ≠ pid := by
            rintro p (rfl | usedP)
            · exact ⟨Or.inl rfl, fun same => by
                have := used.1
                simp [← same, kernelPid] at this⟩
            · exact ⟨Or.inr ((occupied p).1 usedP).2, ((occupied p).1 usedP).1⟩
          refine ⟨kept, fun c q ctl' => ?_, ?_, ?_, ?_⟩
          · have other : c ≠ cur := by
              rintro rfl
              simp [collect] at ctl'
            have ctlOld : s.ctl c = .joining q := by simpa [collect, other] using ctl'
            obtain ⟨usedQ, own⟩ := inv.waiting c q ctlOld
            refine ⟨(occupied q).2 ⟨?_, usedQ⟩, own⟩
            rintro rfl
            exact other (base.born_injective (base.held_of_active (by simp [ctlOld]))
              (base.held_of_active (by simp [ctl])) (own.symm.trans mine))
          · simp only [collect, List.map_append, List.map_cons, List.map_nil]
            refine List.nodup_append.2 ⟨inv.once, by simp, ?_⟩
            intro k member k' member' same
            obtain ⟨d, memberD, rfl⟩ := List.mem_map.1 member
            rw [List.mem_singleton.1 member'] at same
            exact (inv.gone d memberD).2.2 pid usedHeld same.symm
          · intro d member
            rcases List.mem_append.1 member with old | new
            · exact inv.correct d old
            · rw [List.mem_singleton.1 new]
              exact ⟨mine.symm, base.exit_value pid used.1 used.2.1 zombie⟩
          · intro d member
            rcases List.mem_append.1 member with old | new
            · obtain ⟨pos, le, other⟩ := inv.gone d old
              exact ⟨pos, le, fun p held => other p (heldOld p held).1⟩
            · rw [List.mem_singleton.1 new]
              refine ⟨base.occupied_pos pid used, base.held_le pid usedHeld, fun p held same => ?_⟩
              exact (heldOld p held).2 (base.born_injective (heldOld p held).1 usedHeld same)
        · cases taken
      · cases taken

/-- Every exit value went to the spawner, and no child's value went out twice. -/
def DeliveredToSpawner (s : State) : Prop :=
  (s.delivered.map Delivery.child).Nodup ∧
    ∀ d ∈ s.delivered, d.receiver = s.spawner d.child ∧ d.value = s.exited d.child

/-- **Joining answers for processes exactly on fresh entries.**  In every reachable
state a call of `process_join` passes the parent test for the caller's own unjoined
processes and no others if and only if the entry is fresh for the caller; and in
every run that joins fresh entries only, exit values go to the spawner, once. -/
theorem processJoin_correct (s : State) :
    (system.Reachable s → ∀ cur pid, s.ctl cur = .idle →
      ((joinAllowed s.table cur pid = true ↔ OwnUnjoined s cur pid) ↔ Fresh s cur pid)) ∧
    (system.ReachableWhen JoinsFresh s → DeliveredToSpawner s) := by
  refine ⟨fun reached cur pid idle => allowed_iff_own (inv_reachable reached) idle, ?_⟩
  intro reached
  have inv : DeliveryInv s := by
    refine System.ReachableWhen.invariant (I := DeliveryInv) ?_
      (fun _ _ _ inv fresh taken => deliveryInv_step inv fresh taken) reached
    rintro s rfl
    exact deliveryInv_boot
  exact ⟨inv.once, inv.correct⟩

/-- The boot state with its table worked out. -/
def started : State := { boot with table := zeroTable }

theorem started_initial : system.initial started := by
  simp [system, started, boot, processInit_zeroTable]

/-- The kernel thread starts process 0. -/
def firstProcess : List Act := [.spawnAlloc kernelPid, .spawnFill kernelPid []]

/-- Process 0 starts process 1, which exits with value 7. -/
def childExits : List Act :=
  firstProcess ++ [.spawnAlloc 0, .spawnFill 0 [], .finish 1 7]

/-- Entry 5 was never used, and its parent field is still zero: process 0 passes the
test for it and would wait for ever. -/
theorem processJoin_never_used :
    ¬ ∀ s, system.Reachable s → ∀ cur pid, s.ctl cur = .idle →
      (joinAllowed s.table cur pid = true ↔ OwnUnjoined s cur pid) := by
  intro claim
  obtain ⟨s, ran⟩ : ∃ s, system.exec started firstProcess = some s := ⟨_, rfl⟩
  have reached : system.Reachable s := (System.Reachable.start started_initial).exec ran
  cases ran
  have agrees := claim _ reached 0 5 rfl
  exact (agrees.1 (by decide)).1.2.2 (by decide)

/-- Process 0 joins process 1: the entry is fresh for it, and it gets the value 7. -/
theorem processJoin_correct_child :
    ∃ s, system.exec started (childExits ++ [.join 0 1, .joinReturn 0]) = some s ∧
      DeliveredToSpawner s ∧ s.delivered = [⟨2, 1, 7⟩] ∧
      ∃ t, system.exec started childExits = some t ∧
        ((joinAllowed t.table 0 1 = true ↔ OwnUnjoined t 0 1) ↔ Fresh t 0 1) := by
  obtain ⟨t, ran⟩ : ∃ t, system.exec started childExits = some t := ⟨_, rfl⟩
  have reached : system.Reachable t := (System.Reachable.start started_initial).exec ran
  have inv := inv_reachable reached
  cases ran
  have guarded : system.Guarded JoinsFresh started (childExits ++ [.join 0 1, .joinReturn 0]) := by
    refine ⟨trivial, trivial, trivial, trivial, trivial, fun _ _ _ => ⟨by decide, ?_, by decide⟩,
      trivial, trivial⟩
    intro d spawning
    exact absurd (inv.spawning d 1 spawning).2.2.1 (by decide)
  refine ⟨_, rfl, ?_, by decide, _, rfl, (processJoin_correct _).1 reached 0 1 rfl⟩
  exact (processJoin_correct _).2 ((System.ReachableWhen.start started_initial).exec guarded rfl)

end Buenos.Proc.Join
