/-
# Proc.FileList -- removing a descriptor that is listed more than once

`process_rem_file` goes through the list once, from the front.  Where it finds the descriptor it
moves the last one of the list there and goes on with the next place, so it never looks at what it
has moved.  `remFrom` is what becomes of the places still ahead.

A descriptor that is listed `k` times is gone exactly when it is not among the last `k - 1`
(`remFrom_absent_iff`).  All others are listed as often as before in any case
(`remFrom_count`).
-/
import Buenos.Proc.OpenFiles
import Mathlib.Data.List.DropRight

namespace Buenos.Proc

open Buenos.Lib Buenos.Theory Buenos.Proc.Syscall

set_option autoImplicit false

/-- The loop of `process_rem_file` on the descriptors from its index on. -/
def remFrom (fd : Int) : List Int → List Int
  | [] => []
  | x :: rest =>
      if x = fd then
        match rest.getLast? with
        | none => []
        | some last => last :: remFrom fd rest.dropLast
      else x :: remFrom fd rest
termination_by files => files.length
decreasing_by
  · simp only [List.length_dropLast, List.length_cons]
    omega
  · exact Nat.lt_succ_self _

/-- What `process_rem_file` should do: the descriptor is not listed any more, and every other one
is listed as often as before. -/
structure Removed (table table' : ProcessTable) (cur fd : Int) : Prop where
  absent : fd ∉ (table' cur).fileList
  others : ∀ g, g ≠ fd → (table' cur).fileList.count g = (table cur).fileList.count g
  cFiles : (table' cur).cFiles = ((table cur).fileList.filter (· ≠ fd)).length
  checked : ∃ found, processCheckFile cur fd table' = .returned (found, table') ∧ found < 0

/-! ## The loop on a list -/

section Lists

variable {fd : Int}

theorem remFrom_miss {x : Int} (other : x ≠ fd) (rest : List Int) :
    remFrom fd (x :: rest) = x :: remFrom fd rest := by
  rw [remFrom, if_neg other]

theorem remFrom_single : remFrom fd [fd] = [] := by
  rw [remFrom, if_pos rfl]
  rfl

theorem remFrom_hit (rest : List Int) (last : Int) :
    remFrom fd (fd :: (rest ++ [last])) = last :: remFrom fd rest := by
  rw [remFrom, if_pos rfl, List.getLast?_concat, List.dropLast_concat]

/-- The three ways a round can go. -/
theorem remFrom_induction (fd : Int) {P : List Int → Prop} (nil : P []) (single : P [fd])
    (miss : ∀ x rest, x ≠ fd → P rest → P (x :: rest))
    (hit : ∀ rest last, P rest → P (fd :: (rest ++ [last]))) (files : List Int) : P files := by
  induction files using remFrom.induct fd with
  | case1 => exact nil
  | case2 rest ended =>
      rw [List.getLast?_eq_none_iff.1 ended]
      exact single
  | case3 rest last more ih =>
      obtain ⟨front, rfl⟩ := List.getLast?_eq_some_iff.1 more
      rw [List.dropLast_concat] at ih
      exact hit front last ih
  | case4 x rest other ih => exact miss x rest other ih

theorem remFrom_count {g : Int} (other : g ≠ fd) (files : List Int) :
    (remFrom fd files).count g = files.count g := by
  induction files using remFrom_induction fd with
  | nil => rw [remFrom]
  | single => rw [remFrom_single, List.count_nil, List.count_singleton, if_neg (by simpa using other.symm)]
  | miss x rest ne ih => rw [remFrom_miss ne, List.count_cons, List.count_cons, ih]
  | hit rest last ih =>
      rw [remFrom_hit, List.count_cons, List.count_cons, List.count_append, List.count_singleton,
        ih, if_neg (show ¬ (fd == g) = true by simpa using other.symm), Nat.add_zero]

theorem rtake_cons (x : Int) {n : Nat} {files : List Int} (le : n ≤ files.length) :
    (x :: files).rtake n = files.rtake n := by
  rw [List.rtake, List.rtake, List.length_cons, Nat.succ_sub le, List.drop_succ_cons]

/-- **What is left behind**: an occurrence near the end of the list, which is moved before the
loop has come to it. -/
theorem remFrom_absent_iff (files : List Int) :
    fd ∉ remFrom fd files ↔ fd ∉ files.rtake (files.count fd - 1) := by
  induction files using remFrom_induction fd with
  | nil => simp [remFrom]
  | single => simp [remFrom_single]
  | miss x rest ne ih =>
      have few : rest.count fd - 1 ≤ rest.length := by
        have := List.count_le_length (a := fd) (l := rest)
        omega
      rw [remFrom_miss ne, List.count_cons_of_ne ne, rtake_cons x few, List.mem_cons, ← ih]
      simp [ne.symm]
  | hit rest last ih =>
      have few := List.count_le_length (a := fd) (l := rest)
      rw [remFrom_hit, List.count_cons_self, List.count_append, Nat.add_sub_cancel]
      by_cases same : last = fd
      · -- the last one is the descriptor itself, and is moved in its own place
        rw [same, List.count_singleton_self, rtake_cons _ (by simp; omega), List.rtake_concat_succ]
        simp
      · rw [List.count_singleton, if_neg (by simpa using same), Nat.add_zero, List.mem_cons,
          not_or, ih]
        cases listed : rest.count fd with
        | zero => simp [Ne.symm same]
        | succ n =>
            rw [rtake_cons _ (by simp; omega), List.rtake_concat_succ, Nat.add_sub_cancel]
            simp [Ne.symm same]

end Lists

/-! ## The loop on the table -/

section Loop

variable {fd : Int} {entry : ProcessEntry}

theorem fileList_length (entry : ProcessEntry) : entry.fileList.length = entry.cFiles := by
  simp [ProcessEntry.fileList]

theorem files_last {front : List Int} {last : Int} (whole : entry.fileList = front ++ [last]) :
    entry.files (entry.cFiles - 1) = last := by
  have count := fileList_length entry
  rw [whole, List.length_append, List.length_singleton] at count
  have final : entry.fileList[front.length]? = some last := by rw [whole, List.getElem?_concat_length]
  rw [ProcessEntry.fileList, List.getElem?_map, List.getElem?_range (by omega)] at final
  rw [← count, Nat.add_sub_cancel]
  exact Option.some.inj final

theorem dropFile_fileList (i : Nat) :
    (entry.dropFile i).fileList =
      entry.fileList.dropLast.set i (entry.files (entry.cFiles - 1)) := by
  apply List.ext_getElem
  · simp [ProcessEntry.fileList, ProcessEntry.dropFile]
  · intro j _ _
    simp [ProcessEntry.fileList, ProcessEntry.dropFile, List.getElem_set, Function.update_apply,
      eq_comm]

theorem dropFile_final {front : List Int} {x : Int} (whole : entry.fileList = front ++ [x]) :
    (entry.dropFile front.length).fileList = front := by
  rw [dropFile_fileList, whole, List.dropLast_concat, List.set_eq_of_length_le (Nat.le_refl _)]

theorem dropFile_inner {front rest : List Int} {x last : Int}
    (whole : entry.fileList = front ++ x :: (rest ++ [last])) :
    (entry.dropFile front.length).fileList = front ++ last :: rest := by
  have whole : entry.fileList = (front ++ x :: rest) ++ [last] := by
    rw [whole, List.append_assoc, List.cons_append]
  rw [dropFile_fileList, files_last whole, whole, List.dropLast_concat, List.set_append_right _ _ (Nat.le_refl _),
    Nat.sub_self, List.set_cons_zero]

/-- The rest of the loop, after a round that has found the descriptor. -/
theorem remFrom_dropFile {front behind : List Int}
    (whole : entry.fileList = front ++ fd :: behind) :
    (entry.dropFile front.length).fileList.take (front.length + 1) ++
        remFrom fd ((entry.dropFile front.length).fileList.drop (front.length + 1)) =
      front ++ remFrom fd (fd :: behind) := by
  rcases List.eq_nil_or_concat' behind with rfl | ⟨rest, last, rfl⟩
  · rw [dropFile_final whole, List.take_of_length_le (Nat.le_succ _),
      List.drop_eq_nil_of_le (Nat.le_succ _), remFrom_single, remFrom]
  · rw [dropFile_inner whole, remFrom_hit, List.take_length_add_append, List.drop_length_add_append,
      List.append_assoc]
    rfl

theorem remLoop_fileList (fuel i : Nat) (enough : entry.cFiles ≤ i + fuel) :
    (remLoop fd fuel i entry).fileList =
      entry.fileList.take i ++ remFrom fd (entry.fileList.drop i) := by
  induction fuel generalizing i entry with
  | zero =>
      have past : entry.fileList.length ≤ i := by rw [fileList_length]; omega
      rw [remLoop, List.drop_eq_nil_of_le past, List.take_of_length_le past, remFrom, List.append_nil]
  | succ fuel ih =>
      by_cases inside : i < entry.cFiles
      · have bound : i < entry.fileList.length := by rwa [fileList_length]
        have first : entry.fileList[i] = entry.files i := by simp [ProcessEntry.fileList]
        have split := List.drop_eq_getElem_cons bound
        rw [first] at split
        rw [remLoop, if_pos inside]
        by_cases hit : entry.files i = fd
        · have fewer : (entry.dropFile i).cFiles = entry.cFiles - 1 := rfl
          have rounds : (remLoop fd fuel (i + 1) (entry.dropFile i)).fileList = _ :=
            ih (i + 1) (by omega)
          have whole : entry.fileList = entry.fileList.take i ++ fd :: entry.fileList.drop (i + 1) := by
            rw [← hit, ← split, List.take_append_drop]
          have place : (entry.fileList.take i).length = i := List.length_take_of_le (Nat.le_of_lt bound)
          have next := remFrom_dropFile whole
          rw [place] at next
          rw [if_pos hit, split, hit]
          exact rounds.trans next
        · rw [if_neg hit, ih (i + 1) (by omega), split, remFrom_miss hit,
            List.take_succ_eq_append_getElem bound, first, List.append_assoc]
          rfl
      · have past : entry.fileList.length ≤ i := by rw [fileList_length]; omega
        rw [remLoop, if_neg inside, List.drop_eq_nil_of_le past, List.take_of_length_le past, remFrom,
          List.append_nil]

end Loop

section Calls

variable {table : ProcessTable} {cur : Int}

/-- The list that a call leaves behind. -/
theorem processRemFile_fileList (running : Running table cur) (fd : Int) :
    ∃ table', processRemFile cur fd table = .returned (0, table') ∧
      (table' cur).fileList = remFrom fd (table cur).fileList := by
  refine ⟨_, by rw [processRemFile, if_pos (fileListUsable_of_running running)], ?_⟩
  rw [Function.update_self, remLoop_fileList _ _ (Nat.le_add_left ..)]
  rfl

/-- **`process_rem_file`** removes a descriptor that is listed `k` times exactly when it is not
among the last `k - 1` of the list. -/
theorem processRemFile_removes_iff (running : Running table cur) (fd : Int) :
    (∃ table', processRemFile cur fd table = .returned (0, table') ∧ Removed table table' cur fd) ↔
      fd ∉ (table cur).fileList.rtake ((table cur).fileList.count fd - 1) := by
  obtain ⟨table', ran, left⟩ := processRemFile_fileList running fd
  rw [← remFrom_absent_iff, ← left]
  constructor
  · rintro ⟨t, ran', removed⟩
    obtain ⟨rfl⟩ : table' = t := by
      rw [ran] at ran'
      simpa using ran'
    exact removed.absent
  · intro absent
    have others : ∀ g, g ≠ fd → (table' cur).fileList.count g = (table cur).fileList.count g :=
      fun g other => by rw [left, remFrom_count other]
    have permuted : (table' cur).fileList.Perm ((table cur).fileList.filter (· ≠ fd)) := by
      rw [List.perm_iff_count]
      intro g
      by_cases same : g = fd
      · rw [same, List.count_eq_zero_of_not_mem absent, List.count_eq_zero_of_not_mem (by simp)]
      · rw [others g same, List.count_filter (by simpa using same)]
    refine ⟨table', ran, absent, others, ?_, -1, ?_, by decide⟩
    · rw [← permuted.length_eq, fileList_length]
    · rw [processCheckFile_apply, if_neg fun listed => absent listed.2]

end Calls

/-- Process 0 with a list of three descriptors. -/
def listed (first second third : Int) : ProcessTable :=
  Function.update zeroTable 0
    { zeroTable 0 with
      state := .running
      cFiles := 3
      files := fun i => if i = 0 then first else if i = 1 then second else third }

/-- The last descriptor is moved to the place of the first, and found again by nobody. -/
theorem processRemFile_leaves_one :
    Running (listed 5 6 5) 0 ∧
      ¬ ∃ table', processRemFile 0 5 (listed 5 6 5) = .returned (0, table') ∧
        Removed (listed 5 6 5) table' 0 5 := by
  refine ⟨by decide, ?_⟩
  rintro ⟨table', ran, removed⟩
  have left : processRemFile 0 5 (listed 5 6 5) = .returned (0, Function.update (listed 5 6 5) 0
      (remLoop 5 3 0 (listed 5 6 5 0))) := rfl
  rw [left] at ran
  obtain ⟨rfl⟩ : Function.update (listed 5 6 5) 0 (remLoop 5 3 0 (listed 5 6 5 0)) = table' := by
    simpa using ran
  exact removed.absent (by decide)

theorem processRemFile_removes_two :
    ∃ table', processRemFile 0 5 (listed 5 5 6) = .returned (0, table') ∧
      Removed (listed 5 5 6) table' 0 5 :=
  (processRemFile_removes_iff (by decide) 5).2 (by decide)

end Buenos.Proc
