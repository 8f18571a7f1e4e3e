/-
# Userland.Strings -- strcpy and strcat of the userland library

The two functions of tests/lib.c on the memory of a program.  `strcpy` stops at the terminator of
its source before it has copied it, and `strcat` is a `strcpy` to the end of its target.  So the
target is a string only if a zero happened to be where the terminator belongs
(`strings_written_iff`).

A copy to a place within the source string overwrites the terminator before it is read, and does
not end.
-/
import Buenos.Lib.Cstring
import Buenos.Theory.Loop

namespace Buenos.Userland

open Buenos.Lib Buenos.Theory

set_option autoImplicit false

/-- A round of the loop of `strlen`. -/
def strlenRound (mem : Memory) (s i : Address) : Option (Address ⊕ Address) :=
  some (if mem (s + i).toNat ≠ 0 then .inl (i + 1) else .inr i)

def strlen (rounds : Nat) (mem : Memory) (s : Address) : Option Address :=
  loop (strlenRound mem s) rounds 0

/-- A round of the loop of `strcpy`. -/
def strcpyRound (dest src : Address) :
    Address × Copying → Option ((Address × Copying) ⊕ Copying)
  | (i, c) =>
      some (if c.mem (src + i).toNat ≠ 0 then .inl (i + 1, c.byte (dest + i) (src + i)) else .inr c)

/-- The copy, and the pointer that is returned. -/
def strcpy (rounds : Nat) (c : Copying) (dest src : Address) : Option (Copying × Address) :=
  (loop (strcpyRound dest src) rounds (0, c)).map fun c => (c, dest)

def strcat (rounds : Nat) (c : Copying) (dest src : Address) : Option (Copying × Address) := do
  let length ← strlen rounds c.mem dest
  strcpy rounds c (dest + length) src

/-- What a call should leave at `dest`: a string, and nothing written behind its terminator. -/
structure LeavesString (c : Copying) (dest : Address) (s : Name) : Prop where
  string : CstringAt c.mem dest s
  inside : ∀ x ∈ c.written, x ∈ span dest (s.length + 1)

/-- `strcpy` returns and has copied the string `s` at `src`. -/
def StrcpyCopies (mem : Memory) (dest src : Address) (s : Name) : Prop :=
  ∃ rounds c ret, strcpy rounds (.start mem) dest src = some (c, ret) ∧ LeavesString c dest s

/-- `strcat` returns and has put the string `s` at `src` behind the string `t` at `dest`. -/
def StrcatAppends (mem : Memory) (dest src : Address) (t s : Name) : Prop :=
  ∃ rounds c ret, strcat rounds (.start mem) dest src = some (c, ret) ∧ LeavesString c dest (t ++ s)

/-! ## The loops -/

section Loops

variable {mem : Memory} {dest src : Address} {s : Name}

theorem strlen_returned (held : CstringAt mem src s) :
    strlen (s.length + 1) mem src = some (BitVec.ofNat 32 s.length) := by
  have rest : ∀ n i, i + n = s.length →
      loop (strlenRound mem src) (n + 1) (BitVec.ofNat 32 i) = some (BitVec.ofNat 32 s.length) := by
    intro n
    induction n with
    | zero =>
        rintro i rfl
        refine loop_exit _ ?_
        have ended : mem (src + BitVec.ofNat 32 s.length).toNat = 0 :=
          (held _ (Nat.le_refl _)).trans (s.char_of_le (Nat.le_refl _))
        rw [strlenRound, if_neg (not_not.2 ended)]
    | succ n ih =>
        intro i count
        have more : mem (src + BitVec.ofNat 32 i).toNat ≠ 0 := by
          have char := held i (by omega)
          rw [cell] at char
          rw [char]
          exact s.char_ne_zero (by omega)
        have next : strlenRound mem src (BitVec.ofNat 32 i) = some (.inl (BitVec.ofNat 32 (i + 1))) := by
          rw [strlenRound, if_pos more, next_index]
        rw [loop_next _ next]
        exact ih (i + 1) (by omega)
  exact rest s.length 0 (Nat.zero_add _)

/-- A target outside the string: the loop ends at the terminator. -/
theorem strcpy_returned (held : CstringAt mem src s) (apart : ¬ InString dest src s) :
    loop (strcpyRound dest src) (s.length + 1) (0, Copying.start mem) =
      some ((Copying.start mem).byteLoop s.length dest src) := by
  have long := held.length_lt
  have reads : ∀ i ≤ s.length, ((Copying.start mem).byteLoop i dest src).mem (cell src i) = s.char i := by
    intro i le
    rw [Copying.byteLoop_next _ _ _ (by omega) (Copying.byteLoop_cell _ _ _ (by omega))]
    exact Copying.reads_string held apart le
  have rest : ∀ n i, i + n = s.length →
      loop (strcpyRound dest src) (n + 1) (BitVec.ofNat 32 i, (Copying.start mem).byteLoop i dest src) =
        some ((Copying.start mem).byteLoop s.length dest src) := by
    intro n
    induction n with
    | zero =>
        rintro i rfl
        refine loop_exit _ ?_
        have ended := (reads s.length (Nat.le_refl _)).trans (s.char_of_le (Nat.le_refl _))
        rw [cell] at ended
        rw [strcpyRound, if_neg (not_not.2 ended)]
    | succ n ih =>
        intro i count
        have more : ((Copying.start mem).byteLoop i dest src).mem (src + BitVec.ofNat 32 i).toNat ≠ 0 := by
          have char := reads i (by omega)
          rw [cell] at char
          rw [char]
          exact s.char_ne_zero (by omega)
        have next : strcpyRound dest src (BitVec.ofNat 32 i, (Copying.start mem).byteLoop i dest src) =
            some (.inl (BitVec.ofNat 32 (i + 1), (Copying.start mem).byteLoop (i + 1) dest src)) := by
          rw [strcpyRound, if_pos more, next_index, Copying.byteLoop_succ]
        rw [loop_next _ next]
        exact ih (i + 1) (by omega)
  exact rest s.length 0 (Nat.zero_add _)

/-- A target within the string: no terminator is left to be read. -/
theorem strcpy_forever (held : CstringAt mem src s) (within : InString dest src s) (rounds : Nat) :
    loop (strcpyRound dest src) rounds (0, Copying.start mem) = none := by
  refine loop_trap (I := fun state => ∃ k, state.1 = BitVec.ofNat 32 k ∧
    ∀ j < k + distance dest src, state.2.mem (cell src j) ≠ 0) ?_ ⟨0, rfl, ?_⟩ rounds
  · rintro ⟨i, c⟩ ⟨k, index, nonzero⟩
    dsimp only at index nonzero
    subst index
    have here := nonzero k (Nat.lt_add_of_pos_right within.1)
    refine .inr ⟨_, by rw [strcpyRound, if_pos (by exact here)], k + 1, next_index k, fun j less => ?_⟩
    rw [Copying.byte]
    dsimp only
    rw [Function.update_apply]
    split
    · exact here
    · rename_i other
      refine nonzero j ?_
      by_contra last
      refine other ?_
      have place : j = distance dest src + k := by omega
      rw [place, ← cell_distance]
      rfl
  · intro j less
    rw [Nat.zero_add] at less
    have inside := within.2
    change mem (cell src j) ≠ 0
    rw [held j (by omega)]
    exact s.char_ne_zero (by omega)

/-- What a call of `strcpy` has done, if it returns. -/
theorem strcpy_iff (held : CstringAt mem src s) {P : Copying → Prop} :
    (∃ rounds c ret, strcpy rounds (.start mem) dest src = some (c, ret) ∧ P c) ↔
      ¬ InString dest src s ∧ P ((Copying.start mem).byteLoop s.length dest src) := by
  constructor
  · rintro ⟨rounds, c, ret, ran, holds⟩
    rw [strcpy, Option.map_eq_some_iff] at ran
    obtain ⟨c, ended, same⟩ := ran
    have apart : ¬ InString dest src s := fun within => by
      rw [strcpy_forever held within] at ended
      cases ended
    cases same
    rw [loop_unique (strcpy_returned held apart) ended]
    exact ⟨apart, holds⟩
  · rintro ⟨apart, holds⟩
    exact ⟨s.length + 1, _, dest, by rw [strcpy, strcpy_returned held apart]; rfl, holds⟩

/-- `strcat` is a `strcpy` to the terminator of its target. -/
theorem strcat_iff {t : Name} (target : CstringAt mem dest t) (held : CstringAt mem src s)
    {P : Copying → Prop} :
    (∃ rounds c ret, strcat rounds (.start mem) dest src = some (c, ret) ∧ P c) ↔
      ¬ InString (dest + BitVec.ofNat 32 t.length) src s ∧
        P ((Copying.start mem).byteLoop s.length (dest + BitVec.ofNat 32 t.length) src) := by
  rw [← strcpy_iff held]
  constructor
  · rintro ⟨rounds, c, ret, ran, holds⟩
    rw [strcat, Option.bind_eq_bind, Option.bind_eq_some_iff] at ran
    obtain ⟨length, counted, ran⟩ := ran
    rw [loop_unique counted (strlen_returned target)] at ran
    exact ⟨rounds, c, ret, ran, holds⟩
  · rintro ⟨rounds, c, ret, ran, holds⟩
    have more : ∀ {σ β : Type} {step : σ → Option (σ ⊕ β)} {m n : Nat} {x : σ} {b : β}, m ≤ n →
        loop step m x = some b → loop step n x = some b :=
      fun le ended => loop_mono (fun _ _ same => same) le ended
    rw [strcpy, Option.map_eq_some_iff] at ran
    obtain ⟨c', ended, same⟩ := ran
    refine ⟨max rounds (t.length + 1), c, ret, ?_, holds⟩
    have counted : strlen (max rounds (t.length + 1)) mem dest = some (BitVec.ofNat 32 t.length) :=
      more (Nat.le_max_right ..) (strlen_returned target)
    have copied := more (Nat.le_max_left rounds (t.length + 1)) ended
    rw [strcat, Option.bind_eq_bind]
    change (strlen (max rounds (t.length + 1)) mem dest).bind _ = _
    rw [counted, Option.bind_some, strcpy, copied, Option.map_some, same]

end Loops

/-! ## When the target is a string -/

section Calls

variable {mem : Memory} {dest src : Address} {s t : Name}

/-- A string behind another one, without its terminator. -/
theorem appended_iff (source : CstringAt mem src s) (target : ∀ i < t.length, mem (cell dest i) = t.char i)
    (room : t.length + s.length < 4294967296)
    (apart : ¬ InString (dest + BitVec.ofNat 32 t.length) src s) :
    LeavesString ((Copying.start mem).byteLoop s.length (dest + BitVec.ofNat 32 t.length) src) dest (t ++ s) ↔
      mem (cell dest (t.length + s.length)) = 0 := by
  have outside : ∀ i, (∀ j < s.length, i ≠ t.length + j) → i < 4294967296 →
      ((Copying.start mem).byteLoop s.length (dest + BitVec.ofNat 32 t.length) src).mem (cell dest i) =
        mem (cell dest i) := by
    intro i other bound
    refine Copying.byteLoop_outside _ _ _ _ fun inside => ?_
    obtain ⟨j, less, same⟩ := mem_span_cell.1 inside
    rw [cell_add] at same
    exact other j less (cell_inj bound (by omega) same)
  have last := outside (t.length + s.length) (fun j less => by omega) room
  constructor
  · intro leaves
    have ended := leaves.string (t ++ s).length (Nat.le_refl _)
    rw [Name.char_of_le _ (Nat.le_refl _), List.length_append, last] at ended
    exact ended
  · intro zero
    refine ⟨fun i inside => ?_, fun x written => ?_⟩
    · rw [List.length_append] at inside
      rw [Name.char_append]
      split
      · rename_i before
        rw [outside i (fun j _ => by omega) (by omega), target i before]
      · rename_i behind
        obtain ⟨j, rfl⟩ := Nat.exists_eq_add_of_le (Nat.le_of_not_lt behind)
        rw [Nat.add_sub_cancel_left]
        by_cases copied : j < s.length
        · rw [← cell_add, Copying.byteLoop_cell _ _ _ (by omega) j copied]
          exact Copying.reads_string (c := .start mem) source apart (Nat.le_of_lt copied)
        · obtain rfl : j = s.length := by omega
          rw [last, zero, Name.char_of_le _ (Nat.le_refl _)]
    · rw [(Copying.byteLoop_touched ..).2] at written
      obtain ⟨j, less, rfl⟩ := mem_span_cell.1 written
      rw [cell_add]
      exact cell_mem_span (by rw [List.length_append]; omega)

/-- **Strings are copied** to a target outside them where a zero has been in the place of the
terminator, and nowhere else. -/
theorem strings_written_iff (source : CstringAt mem src s) (dest : Address) :
    (StrcpyCopies mem dest src s ↔ ¬ InString dest src s ∧ mem (cell dest s.length) = 0) ∧
      ∀ t, CstringAt mem dest t → t.length + s.length < 4294967296 →
        (StrcatAppends mem dest src t s ↔
          ¬ InString (dest + BitVec.ofNat 32 t.length) src s ∧
            mem (cell dest (t.length + s.length)) = 0) := by
  constructor
  · rw [StrcpyCopies, strcpy_iff source]
    refine and_congr_right fun apart => ?_
    have empty := @appended_iff mem dest src s [] source (fun i none => absurd none (Nat.not_lt_zero i))
      (by simpa using source.length_lt)
    have same : dest + BitVec.ofNat 32 0 = dest := BitVec.add_zero dest
    simp only [List.length_nil, same, List.nil_append, Nat.zero_add] at empty
    exact empty apart
  · intro t target room
    rw [StrcatAppends, strcat_iff target source]
    exact and_congr_right (appended_iff source (fun i inside => target i (Nat.le_of_lt inside)) room)

end Calls

/-- In a buffer full of `z`, the copy has no end. -/
theorem strcpy_unterminated : CstringAt (twoArrays 0x7a) 100 letterB ∧
    ¬ StrcpyCopies (twoArrays 0x7a) 200 100 letterB := by
  refine ⟨twoArrays_source _, ?_⟩
  rintro ⟨rounds, c, ret, ran, leaves⟩
  rw [strcpy, Option.map_eq_some_iff] at ran
  obtain ⟨c', ended, same⟩ := ran
  cases same
  have known : loop (strcpyRound 200 100) 2 (0, .start (twoArrays 0x7a)) =
      some ((Copying.start (twoArrays 0x7a)).byte 200 100) := rfl
  obtain rfl := loop_unique known ended
  have last := leaves.string 1 (Nat.le_refl _)
  revert last
  decide

/-- In a buffer of zeros, both calls leave strings. -/
theorem strcpy_zeroed :
    StrcpyCopies (twoArrays 0) 200 100 letterB ∧ StrcatAppends (twoArrays 0) 200 100 [] letterB := by
  have calls := strings_written_iff (twoArrays_source 0) 200
  refine ⟨calls.1.2 (by decide), (calls.2 [] ?_ (by decide)).2 (by decide)⟩
  intro i inside
  obtain rfl : i = 0 := Nat.le_zero.1 inside
  rfl

end Buenos.Userland
