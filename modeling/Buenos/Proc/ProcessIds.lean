/-
# Proc.ProcessIds -- which words the allocation of process ids touches

`process_init` and `alloc_process_id` once more, with every entry that they read or write
noted.  Both loops run up to and including `PROCESS_MAX_PROCESSES`: `process_init` always
writes behind the table, `alloc_process_id` reads there, and may write, exactly when no
entry of the table is free.  `processSystem` is the table under any spawns, exits and joins.
-/
import Buenos.Proc.Process
import Buenos.Theory.Run
import Mathlib.Data.Nat.Find

namespace Buenos.Proc

open Buenos.Lib Buenos.Theory

set_option autoImplicit false

/-- The table and the indices that have been used on it, the last one first. -/
structure Traced where
  table : ProcessTable
  touched : List Int

namespace Traced

/-- `process_table[i].state == PROCESS_FREE` -/
def isFree (i : Int) : Prog Traced Bool := fun s =>
  .returned ((s.table i).state = .free, { s with touched := i :: s.touched })

/-- `process_table[i].state = PROCESS_RUNNING` -/
def setRunning (i : Int) : Prog Traced Unit := Prog.modify fun s =>
  { table := Function.update s.table i { s.table i with state := .running }
    touched := i :: s.touched }

def processReset (pid : Int) : Prog Traced Unit := Prog.modify fun s =>
  { table := Proc.processReset s.table pid, touched := pid :: s.touched }

/-- The loop of `process_init` from `i` on, with the number of rounds left. -/
def resetFrom : Nat → Nat → Prog Traced Unit
  | 0, _ => pure ()
  | rounds + 1, i => do
      processReset i
      resetFrom rounds (i + 1)

def processInit : Prog Traced Unit := resetFrom (PROCESS_MAX_PROCESSES + 1) 0

/-- The loop of `alloc_process_id` from `i` on, with the number of rounds left. -/
def scanFrom : Nat → Nat → Prog Traced Int
  | 0, i => pure i
  | rounds + 1, i => do
      let free ← isFree i
      if free then do
        setRunning i
        pure i
      else scanFrom rounds (i + 1)

def allocProcessId : Prog Traced Int := scanFrom (PROCESS_MAX_PROCESSES + 1) 0

/-! ## The loops -/

variable {s : Traced}

/-- The indices from `i` to `k`, the last one first, on top of `rest`. -/
def through (i : Nat) : Nat → List Int → List Int
  | 0, rest => rest
  | n + 1, rest => through (i + 1) n ((i : Int) :: rest)

theorem mem_through {p : Int} {i n : Nat} {rest : List Int} :
    p ∈ through i n rest ↔ p ∈ rest ∨ ∃ k, i ≤ k ∧ k < i + n ∧ p = k := by
  induction n generalizing i rest with
  | zero =>
      refine ⟨Or.inl, ?_⟩
      rintro (old | ⟨k, low, high, -⟩)
      · exact old
      · omega
  | succ n ih =>
      rw [through, ih, List.mem_cons]
      constructor
      · rintro ((rfl | old) | ⟨k, low, high, rfl⟩)
        · exact .inr ⟨i, Nat.le_refl i, by omega, rfl⟩
        · exact .inl old
        · exact .inr ⟨k, by omega, by omega, rfl⟩
      · rintro (old | ⟨k, low, high, rfl⟩)
        · exact .inl (.inr old)
        · by_cases first : k = i
          · exact .inl (.inl (by rw [first]))
          · exact .inr ⟨k, by omega, by omega, rfl⟩

theorem resetFrom_ran (rounds i : Nat) (s : Traced) :
    ∃ t, resetFrom rounds i s = .returned ((), t) ∧ t.touched = through i rounds s.touched := by
  induction rounds generalizing i s with
  | zero => exact ⟨s, rfl, rfl⟩
  | succ rounds ih =>
      obtain ⟨t, ran, touched⟩ := ih (i + 1) ⟨Proc.processReset s.table i, i :: s.touched⟩
      exact ⟨t, ran, touched⟩

/-- The scan stops at the first free entry. -/
theorem scanFrom_found {k : Nat} (free : (s.table k).state = .free) (rounds i : Nat) (le : i ≤ k)
    (enough : k < i + rounds) (before : ∀ j : Nat, i ≤ j → j < k → (s.table j).state ≠ .free) :
    scanFrom rounds i s = .returned ((k : Int),
      { table := Function.update s.table k { s.table k with state := .running }
        touched := k :: through i (k + 1 - i) s.touched }) := by
  induction rounds generalizing i s with
  | zero => omega
  | succ rounds ih =>
      rw [scanFrom]
      by_cases here : i = k
      · subst here
        rw [Nat.add_sub_cancel_left]
        simp [isFree, setRunning, Prog.bind_apply, Prog.modify, free, through]
      · have busy : (s.table i).state ≠ .free := before i (Nat.le_refl i) (by omega)
        have rest := ih (s := { s with touched := i :: s.touched }) free (i + 1) (by omega) (by omega)
          fun j low => before j (by omega)
        have more : k + 1 - i = k + 1 - (i + 1) + 1 := by omega
        rw [more]
        simp only [Prog.bind_apply, isFree, busy, decide_false, Bool.false_eq_true, if_false]
        exact rest

theorem scanFrom_none (rounds i : Nat)
    (busy : ∀ j : Nat, i ≤ j → j < i + rounds → (s.table j).state ≠ .free) :
    scanFrom rounds i s =
      .returned (((i + rounds : Nat) : Int), { s with touched := through i rounds s.touched }) := by
  induction rounds generalizing i s with
  | zero => rfl
  | succ rounds ih =>
      have first : (s.table i).state ≠ .free := busy i (Nat.le_refl i) (by omega)
      have rest := ih (s := { s with touched := i :: s.touched }) (i + 1) fun j low high =>
        busy j (by omega) (by omega)
      rw [scanFrom]
      simp only [Prog.bind_apply, isFree, first, decide_false, Bool.false_eq_true, if_false]
      rw [rest, show i + 1 + rounds = i + (rounds + 1) by omega]
      rfl

/-- Noting the indices changes nothing else. -/
theorem allocProcessId_table {pid : Int} {table : ProcessTable}
    (ran : Proc.allocProcessId s.table = .returned (pid, table)) :
    ∃ touched, allocProcessId s = .returned (pid, ⟨table, touched⟩) := by
  unfold Proc.allocProcessId at ran
  split at ran
  · rename_i k found
    obtain ⟨free, range, before⟩ := List.find?_range_eq_some.1 found
    simp only [Outcome.returned.injEq, Prod.mk.injEq] at ran
    obtain ⟨rfl, rfl⟩ := ran
    exact ⟨_, scanFrom_found (of_decide_eq_true free) _ 0 (Nat.zero_le k)
      (by simpa using List.mem_range.1 range) fun j _ less => by simpa using before j less⟩
  · rename_i none_
    simp only [Outcome.returned.injEq, Prod.mk.injEq] at ran
    obtain ⟨rfl, rfl⟩ := ran
    exact ⟨_, scanFrom_none _ 0 fun j _ less =>
      by simpa using List.find?_range_eq_none.1 none_ j (by simpa using less)⟩

end Traced

/-! ## Staying inside the table -/

/-- An index of the table. -/
def InTable (p : Int) : Prop := 0 ≤ p ∧ p < PROCESS_MAX_PROCESSES

/-- Some entry of the table is free. -/
def HasFree (table : ProcessTable) : Prop := ∃ p, InTable p ∧ (table p).state = .free

/-- `process_init` uses nothing but entries of the table. -/
def InitInside (table : ProcessTable) : Prop :=
  Traced.processInit.Ends ⟨table, []⟩ fun _ t => ∀ p ∈ t.touched, InTable p

/-- `alloc_process_id` uses nothing but entries of the table, takes a free one if there is one,
and otherwise returns `PROCESS_MAX_PROCESSES` and changes nothing. -/
def AllocInside (table : ProcessTable) : Prop :=
  Traced.allocProcessId.Ends ⟨table, []⟩ fun pid t =>
    (∀ p ∈ t.touched, InTable p) ∧
      ((InTable pid ∧ (table pid).state = .free ∧
          t.table = Function.update table pid { table pid with state := .running }) ∨
        (¬ HasFree table ∧ pid = PROCESS_MAX_PROCESSES ∧ t.table = table))

theorem not_initInside (table : ProcessTable) : ¬ InitInside table := by
  rintro ⟨done, t, ran, inside⟩
  obtain ⟨t', ran', touched⟩ := Traced.resetFrom_ran (PROCESS_MAX_PROCESSES + 1) 0 ⟨table, []⟩
  have same : t' = t := by
    have both := ran'.symm.trans ran
    simp only [Outcome.returned.injEq, Prod.mk.injEq] at both
    exact both.2
  subst same
  have last : (PROCESS_MAX_PROCESSES : Int) ∈ t'.touched := by
    rw [touched]
    exact Traced.mem_through.2 (.inr ⟨PROCESS_MAX_PROCESSES, Nat.zero_le _, by omega, rfl⟩)
  exact absurd (inside _ last).2 (Int.lt_irrefl _)

/-- The first free entry below a bound. -/
theorem HasFree.first {table : ProcessTable} (free : HasFree table) :
    ∃ k : Nat, k < PROCESS_MAX_PROCESSES ∧ (table k).state = .free ∧
      ∀ j : Nat, j < k → (table j).state ≠ .free := by
  obtain ⟨p, ⟨low, high⟩, free⟩ := free
  obtain ⟨k, rfl⟩ := Int.eq_ofNat_of_zero_le low
  have some_ : ∃ k : Nat, (table k).state = .free := ⟨k, free⟩
  exact ⟨Nat.find some_, Nat.lt_of_le_of_lt (Nat.find_le free) (Int.ofNat_lt.1 high),
    Nat.find_spec some_, fun j less => Nat.find_min some_ less⟩

theorem allocInside_iff (table : ProcessTable) : AllocInside table ↔ HasFree table := by
  constructor
  · rintro ⟨pid, t, ran, inside, outcome⟩
    by_contra full
    -- with no free entry the scan goes on to the index behind the table
    have touched : (PROCESS_MAX_PROCESSES : Int) ∈ t.touched := by
      have busy : ∀ j : Nat, j < PROCESS_MAX_PROCESSES → (table j).state ≠ .free :=
        fun j less free => full ⟨j, ⟨Int.natCast_nonneg j, Int.ofNat_lt.2 less⟩, free⟩
      by_cases behind : (table PROCESS_MAX_PROCESSES).state = .free
      · have found := Traced.scanFrom_found (s := ⟨table, []⟩) behind (PROCESS_MAX_PROCESSES + 1) 0
          (Nat.zero_le _) (by omega) fun j _ less => busy j less
        have both := found.symm.trans ran
        simp only [Outcome.returned.injEq, Prod.mk.injEq] at both
        rw [← both.2]
        exact List.mem_cons_self
      · have none_ := Traced.scanFrom_none (s := ⟨table, []⟩) (PROCESS_MAX_PROCESSES + 1) 0
          fun j _ less => by
            by_cases last : j = PROCESS_MAX_PROCESSES
            · rw [last]
              exact behind
            · exact busy j (by omega)
        have both := none_.symm.trans ran
        simp only [Outcome.returned.injEq, Prod.mk.injEq] at both
        rw [← both.2]
        exact Traced.mem_through.2 (.inr ⟨PROCESS_MAX_PROCESSES, Nat.zero_le _, by omega, rfl⟩)
    exact absurd (inside _ touched).2 (Int.lt_irrefl _)
  · intro free
    obtain ⟨k, low, here, before⟩ := free.first
    refine ⟨k, _, Traced.scanFrom_found (s := ⟨table, []⟩) here _ 0 (Nat.zero_le k) (by omega)
      (fun j _ less => before j less), fun p mem => ?_, .inl ⟨?_, here, rfl⟩⟩
    · rcases List.mem_cons.1 mem with rfl | mem
      · exact ⟨Int.natCast_nonneg k, Int.ofNat_lt.2 low⟩
      · rcases Traced.mem_through.1 mem with old | ⟨j, -, less, rfl⟩
        · cases old
        · exact ⟨Int.natCast_nonneg j, by omega⟩
    · exact ⟨Int.natCast_nonneg k, Int.ofNat_lt.2 low⟩

/-! ## Every run -/

/-- The table, and the ids of the processes that have been started and have not finished. -/
structure Ids where
  table : ProcessTable
  live : List Int

inductive IdAct where
  | spawn (cur : Int) (executable : Name)
  | exit (cur retval : Int)
  | join (cur pid : Int)

/-- A spawn that leaves the table's memory, and a join that has to wait, are no steps. -/
def Ids.step (s : Ids) : IdAct → Option Ids
  | .spawn cur executable =>
      match processSpawn cur executable s.table with
      | .returned (pid, table) =>
          some { table, live := if 0 ≤ pid then pid :: s.live else s.live }
      | .stopped _ => none
  | .exit cur retval =>
      if cur ∈ s.live then
        some { table := processFinish s.table cur retval, live := s.live.erase cur }
      else none
  | .join cur pid =>
      match processJoin cur pid s.table with
      | .returned (_, table) => some { s with table := table }
      | .stopped _ => none

def processSystem : System Ids IdAct where
  initial s := ∃ before, s = { table := processInit before, live := [] }
  step := Ids.step

/-- No id is live twice, and a live one is that of a running entry. -/
structure LiveInv (s : Ids) : Prop where
  nodup : s.live.Nodup
  running : ∀ p ∈ s.live, InTable p ∧ (s.table p).state = .running

namespace LiveInv

variable {s t : Ids} (inv : LiveInv s)

include inv

/-- Entries that are not running may change. -/
theorem frame {table : ProcessTable}
    (kept : ∀ p, InTable p → (s.table p).state = .running → (table p).state = .running) :
    LiveInv { s with table := table } where
  nodup := inv.nodup
  running p mem := ⟨(inv.running p mem).1, kept p (inv.running p mem).1 (inv.running p mem).2⟩

theorem spawn {cur : Int} {executable : Name}
    (taken : s.step (.spawn cur executable) = some t) : LiveInv t := by
  simp only [Ids.step] at taken
  split at taken
  · rename_i pid table ran
    obtain rfl := Option.some.inj taken
    obtain ⟨i, table', alloc, rest⟩ := Prog.bind_returned.1 ran
    split at rest
    · -- the word behind the table was claimed; the id is not given out
      rename_i full
      obtain ⟨rfl, rfl⟩ : PROCESS_PTABLE_FULL = pid ∧ table' = table := by
        simpa using Prod.mk.inj (Outcome.returned.inj rest)
      refine inv.frame fun p inTable running => ?_
      rcases allocProcessId_cases alloc with ⟨k, -, -, -, rfl⟩ | ⟨-, rfl⟩
      · rw [Function.update_of_ne (by rw [full]; exact Int.ne_of_lt inTable.2)]
        exact running
      · exact running
    · split at rest
      · cases rest
      · rename_i notFull notPast
        rcases allocProcessId_cases alloc with ⟨k, -, index, free, rfl⟩ | ⟨past, -⟩
        · obtain ⟨rfl, rfl⟩ := Prod.mk.inj (Outcome.returned.inj rest)
          have low : 0 ≤ i := by omega
          have fresh : i ∉ s.live := fun mem => by
            have running := (inv.running i mem).2
            rw [free] at running
            cases running
          simp only [low, if_true]
          refine ⟨List.nodup_cons.2 ⟨fresh, inv.nodup⟩, fun p mem => ?_⟩
          rcases List.mem_cons.1 mem with rfl | old
          · exact ⟨⟨low, by omega⟩, by simp [spawnFill]⟩
          · have other : p ≠ i := by
              rintro rfl
              exact fresh old
            obtain ⟨inTable, running⟩ := inv.running p old
            refine ⟨inTable, ?_⟩
            simpa [spawnFill, other] using running
        · omega
  · cases taken

theorem exit {cur retval : Int} (taken : s.step (.exit cur retval) = some t) : LiveInv t := by
  simp only [Ids.step] at taken
  split at taken
  · obtain rfl := Option.some.inj taken
    refine ⟨inv.nodup.erase cur, fun p mem => ?_⟩
    obtain ⟨other, old⟩ := inv.nodup.mem_erase_iff.1 mem
    obtain ⟨inTable, running⟩ := inv.running p old
    refine ⟨inTable, ?_⟩
    simpa [processFinish, other] using running
  · cases taken

theorem join {cur pid : Int} (taken : s.step (.join cur pid) = some t) : LiveInv t := by
  simp only [Ids.step, processJoin] at taken
  by_cases allowed : joinAllowed s.table cur pid = true
  · by_cases zombie : (s.table pid).state = .zombie
    · simp only [allowed, zombie, if_true] at taken
      obtain rfl := Option.some.inj taken
      refine inv.frame fun p _ running => ?_
      have other : p ≠ pid := by
        rintro rfl
        rw [zombie] at running
        cases running
      simpa [processReset, other] using running
    · simp only [allowed, zombie, if_true, if_false] at taken
      cases taken
  · simp only [allowed] at taken
    obtain rfl := Option.some.inj taken
    exact inv

end LiveInv

theorem liveInv {s : Ids} (reached : processSystem.Reachable s) : LiveInv s := by
  refine reached.invariant (I := LiveInv) ?_ ?_
  · rintro s ⟨before, rfl⟩
    exact ⟨List.nodup_nil, fun p mem => absurd mem List.not_mem_nil⟩
  · intro s act t inv taken
    cases act with
    | spawn cur executable => exact inv.spawn taken
    | exit cur retval => exact inv.exit taken
    | join cur pid => exact inv.join taken

/-- **Process ids.**  In every run no two live processes have one id, and `alloc_process_id`
stays inside the table, with the right result, if and only if an entry is free;
`process_init` never stays inside. -/
theorem processIds_inside {s : Ids} (reached : processSystem.Reachable s) :
    (AllocInside s.table ↔ HasFree s.table) ∧ (∀ table, ¬ InitInside table) ∧ s.live.Nodup ∧
      ∀ p ∈ s.live, InTable p ∧ (s.table p).state = .running :=
  ⟨allocInside_iff s.table, not_initInside, (liveInv reached).nodup, (liveInv reached).running⟩

/-- A process spawns another, collects it when it has exited, and spawns a third. -/
def collects : List IdAct :=
  [.spawn kernelPid [], .spawn 0 [], .exit 1 7, .join 0 1, .spawn 0 []]

/-- The third process gets the id of the second one, and there is room for more. -/
theorem processIds_inside_collected :
    ∃ s, processSystem.exec { table := processInit zeroTable, live := [] } collects = some s ∧
      s.live = [1, 0] ∧ (∀ p ∈ s.live, (s.table p).state = .running) ∧
      AllocInside s.table ∧ ¬ InitInside s.table := by
  have ran : (processSystem.exec { table := processInit zeroTable, live := [] } collects).map
      (fun s => (s.live, decide ((s.table 2).state = .free))) = some ([1, 0], true) := by
    decide +kernel
  obtain ⟨s, ran, parts⟩ := Option.map_eq_some_iff.1 ran
  simp only [Prod.mk.injEq, decide_eq_true_eq] at parts
  obtain ⟨live, unused⟩ := parts
  have start : processSystem.Reachable { table := processInit zeroTable, live := [] } :=
    .start ⟨zeroTable, rfl⟩
  have reached := start.exec ran
  obtain ⟨alloc, init, -, running⟩ := processIds_inside reached
  exact ⟨s, ran, live, fun p mem => (running p mem).2,
    alloc.2 ⟨2, ⟨by decide, by decide⟩, unused⟩, init _⟩

/-! ## A full table -/

/-- The first `n` words of the table and the one behind it are in use. -/
def Filled (n : Nat) (table : ProcessTable) : Prop :=
  ∀ p : Nat, p ≤ PROCESS_MAX_PROCESSES → ((table p).state = .free ↔ n ≤ p)

theorem Filled.alloc {n : Nat} {table : ProcessTable} (filled : Filled n table)
    (room : n ≤ PROCESS_MAX_PROCESSES) :
    allocProcessId table =
      .returned ((n : Int), Function.update table n { table n with state := .running }) := by
  have found : firstFree table = some n :=
    List.find?_range_eq_some.2 ⟨by simpa using (filled n room).2 (Nat.le_refl n),
      List.mem_range.2 (by omega), fun j less => by
        simpa using fun free => Nat.not_le_of_lt less ((filled j (by omega)).1 free)⟩
  rw [allocProcessId, found]

theorem Filled.update {n : Nat} {table : ProcessTable} (filled : Filled n table)
    (entry : ProcessEntry) (running : entry.state = .running) :
    Filled (n + 1) (Function.update table n entry) := by
  intro p le
  by_cases same : p = n
  · subst same
    simp [running]
  · rw [Function.update_of_ne (by omega), filled p le]
    omega

/-- Another spawn takes the next word, also the one behind the table. -/
theorem Filled.spawn {n : Nat} {table : ProcessTable} (filled : Filled n table)
    (room : n ≤ PROCESS_MAX_PROCESSES) :
    ∃ pid table', processSpawn kernelPid [] table = .returned (pid, table') ∧
      Filled (n + 1) table' := by
  have alloc := filled.alloc room
  by_cases last : n = PROCESS_MAX_PROCESSES
  · refine ⟨PROCESS_PTABLE_FULL, _, ?_, filled.update { table n with state := .running } rfl⟩
    rw [processSpawn, Prog.bind_of_returned alloc, if_pos (by rw [last])]
    rfl
  · let entry : ProcessEntry :=
      { table n with
        state := .running
        executable := stringcopy [] PROCESS_MAX_FILELENGTH
        parent := kernelPid }
    refine ⟨n, _, ?_, filled.update entry rfl⟩
    rw [processSpawn, Prog.bind_of_returned alloc, if_neg (by omega), if_neg (by omega)]
    simp [Prog.bind_apply, Prog.modify, spawnFill, entry]

theorem filled_reachable {n : Nat} (low : n ≤ PROCESS_MAX_PROCESSES + 1) :
    ∃ s, processSystem.Reachable s ∧ Filled n s.table := by
  induction n with
  | zero =>
      refine ⟨{ table := processInit zeroTable, live := [] }, .start ⟨zeroTable, rfl⟩, ?_⟩
      intro p _
      rw [processInit_zeroTable]
      exact ⟨fun _ => Nat.zero_le p, fun _ => rfl⟩
  | succ n ih =>
      obtain ⟨s, reached, filled⟩ := ih (by omega)
      obtain ⟨pid, table, ran, next⟩ := filled.spawn (by omega)
      have taken : processSystem.step s (.spawn kernelPid []) =
          some { table, live := if 0 ≤ pid then pid :: s.live else s.live } := by
        show Ids.step s (.spawn kernelPid []) = _
        rw [Ids.step, ran]
      exact ⟨_, reached.next taken, next⟩

/-- **129 processes**: `process_init` writes behind the table, and after 129 spawns
`alloc_process_id` returns 129, which nobody takes for a full table. -/
theorem processIds_outside :
    ¬ ∀ s, processSystem.Reachable s → InitInside s.table ∧ AllocInside s.table := by
  intro claim
  obtain ⟨s, reached, filled⟩ := filled_reachable (Nat.le_refl (PROCESS_MAX_PROCESSES + 1))
  obtain ⟨pid, t, ran, -, outcome⟩ := (claim s reached).2
  have full : ¬ HasFree s.table := fun free => by
    obtain ⟨k, low, here, -⟩ := free.first
    exact absurd ((filled k (Nat.le_of_lt low)).1 here) (by omega)
  have none_ := Traced.scanFrom_none (s := ⟨s.table, []⟩) (PROCESS_MAX_PROCESSES + 1) 0
    fun j _ less free => absurd ((filled j (by omega)).1 free) (by omega)
  have both := none_.symm.trans ran
  simp only [Outcome.returned.injEq, Prod.mk.injEq] at both
  rcases outcome with ⟨inTable, free, -⟩ | ⟨-, index, -⟩
  · exact full ⟨pid, inTable, free⟩
  · omega

end Buenos.Proc
