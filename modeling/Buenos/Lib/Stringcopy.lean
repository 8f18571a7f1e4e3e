/-
# Lib.Stringcopy -- stringcopy on the memory

lib/libc.c's `stringcopy`.  The loop that should pad the target with zeros counts its rounds but
does not move its pointer, so it writes the terminator again and again and leaves the bytes behind
it as they were.

`stringcopy_fills_iff` says which targets are filled nevertheless: those that held zeros there
before.  It covers targets within the source as well, where the copy repeats what lies between the
two pointers.
-/
import Buenos.Lib.Cstring

namespace Buenos.Lib

open Buenos.Theory

set_option autoImplicit false

namespace Copying

/-- `while(i < buflen) { *target = '\\0'; i++; }`, with the number of rounds. -/
def padLoop : Nat → Address → Copying → Copying
  | 0, _, c => c
  | n + 1, target, c => padLoop n target (c.put target 0)

/-- The loop over the characters, with the number of rounds left.  At the terminator as many rounds
of padding follow as there are rounds left. -/
def stringcopyLoop : Nat → Address → Address → Copying → Copying
  | 0, target, _, c => c.put target 0
  | n + 1, target, source, c =>
      let c := c.byte target source
      if c.mem source.toNat = 0 then padLoop (n + 1) target c
      else stringcopyLoop n (target + 1) (source + 1) c

def stringcopy (c : Copying) (target source : Address) (buflen : CInt) : Copying :=
  c.stringcopyLoop (buflen.val - 1).toNat target source

end Copying

/-- What a call should leave in the target: the characters there is room for, then zeros, and
nothing else written. -/
structure Fills (c : Copying) (target : Address) (s : Name) (buflen : Nat) : Prop where
  copied : ∀ i < min s.length (buflen - 1), c.mem (cell target i) = s.char i
  padded : ∀ i, min s.length (buflen - 1) ≤ i → i < buflen → c.mem (cell target i) = 0
  inside : ∀ x ∈ c.written, x ∈ span target buflen

/-- When a target outside the string is filled. -/
def TailCleared (mem : Memory) (target : Address) (s : Name) (buflen : Nat) : Prop :=
  ∀ i, s.length < i → i < buflen → mem (cell target i) = 0

/-- When a target within the string is filled: all of it is characters, and they repeat with the
distance. -/
def Repeats (target source : Address) (s : Name) (buflen : Nat) : Prop :=
  buflen - 1 ≤ s.length ∧
    ∀ i < buflen - 1, distance target source ≤ i → s.char i = s.char (i - distance target source)

/-! ## The loops -/

namespace Copying

section Loops

variable (c : Copying) (target source : Address)

theorem padLoop_mem (n : Nat) (x : Nat) :
    (c.padLoop (n + 1) target).mem x = if x = target.toNat then 0 else c.mem x := by
  induction n generalizing c with
  | zero => exact Function.update_apply ..
  | succ n ih =>
      rw [padLoop, ih, put]
      dsimp only
      rw [Function.update_apply]
      split <;> rfl

theorem padLoop_written (n : Nat) {x : Nat} (written : x ∈ (c.padLoop n target).written) :
    x ∈ c.written ∨ x = target.toNat := by
  induction n generalizing c with
  | zero => exact .inl written
  | succ n ih =>
      rcases ih _ written with before | here
      · rw [put, List.mem_append, List.mem_singleton] at before
        exact before
      · exact .inr here

variable {c target source}

/-- As long as no terminator is read, the loop copies bytes. -/
theorem stringcopyLoop_reads {n k : Nat} (le : k ≤ n) (bound : n < 4294967296)
    (more : ∀ j < k, c.mem (cell source (j % distance target source)) ≠ 0) :
    c.stringcopyLoop n target source =
      (c.byteLoop k target source).stringcopyLoop (n - k) (target + BitVec.ofNat 32 k)
        (source + BitVec.ofNat 32 k) := by
  induction k with
  | zero => simp [byteLoop]
  | succ k ih =>
      rw [ih (by omega) fun j less => more j (by omega)]
      obtain ⟨m, left⟩ : ∃ m, n - k = m + 1 := ⟨n - k - 1, by omega⟩
      have next : ∀ p : Address, p + BitVec.ofNat 32 k + 1 = p + BitVec.ofNat 32 (k + 1) := by
        intro p
        rw [BitVec.add_assoc, next_index]
      have read : (c.byteLoop (k + 1) target source).mem (cell source k) ≠ 0 := by
        rw [byteLoop_succ_mem, ite_self, byteLoop_next c target source (by omega)
          (byteLoop_cell c target source (by omega))]
        exact more k (Nat.lt_succ_self k)
      rw [byteLoop_succ, cell] at read
      rw [left, stringcopyLoop, if_neg read, next, next, show n - (k + 1) = m by omega, byteLoop_succ]

/-- **What the loop leaves**, if it stops at byte `k`: a terminator there, and copied bytes. -/
theorem stringcopyLoop_stop {n k : Nat} (le : k ≤ n) (bound : n < 4294967296)
    (more : ∀ j < k, c.mem (cell source (j % distance target source)) ≠ 0)
    (ended : k < n → c.mem (cell source (k % distance target source)) = 0) :
    (∀ x, (c.stringcopyLoop n target source).mem x =
      if x = cell target k then 0 else (c.byteLoop k target source).mem x) ∧
      ∀ x ∈ (c.stringcopyLoop n target source).written, x ∈ c.written ∨ x ∈ span target (k + 1) := by
  have touched := (byteLoop_touched k c target source).2
  rw [stringcopyLoop_reads le bound more]
  by_cases full : k = n
  · rw [full, Nat.sub_self, stringcopyLoop, put]
    refine ⟨fun x => Function.update_apply .., fun x written => ?_⟩
    rw [← full, touched, List.append_assoc, List.mem_append, List.mem_append, List.mem_singleton] at written
    rcases written with before | copied | last
    · exact .inl before
    · obtain ⟨i, less, here⟩ := mem_span_cell.1 copied
      exact .inr (mem_span_cell.2 ⟨i, by omega, here⟩)
    · exact .inr (mem_span_cell.2 ⟨k, by omega, by rw [last, cell, full]⟩)
  · obtain ⟨m, left⟩ : ∃ m, n - k = m + 1 := ⟨n - k - 1, by omega⟩
    have read : (c.byteLoop k target source).mem (cell source k) = 0 := by
      rw [byteLoop_next c target source (by omega) (byteLoop_cell c target source (by omega))]
      exact ended (by omega)
    have stopped : (c.byteLoop (k + 1) target source).mem (cell source k) = 0 := by
      rw [byteLoop_succ_mem, ite_self, read]
    have terminator : ∀ x, (c.byteLoop (k + 1) target source).mem x =
        if x = cell target k then 0 else (c.byteLoop k target source).mem x := by
      intro x
      rw [byteLoop_succ_mem, read]
    rw [byteLoop_succ, cell] at stopped
    rw [left, stringcopyLoop, if_pos stopped, ← byteLoop_succ]
    refine ⟨fun x => ?_, fun x written => ?_⟩
    · rw [padLoop_mem, terminator, cell]
      split <;> rfl
    · rcases padLoop_written _ _ _ written with copied | last
      · rwa [(byteLoop_touched ..).2, List.mem_append] at copied
      · exact .inr (mem_span_cell.2 ⟨k, by omega, last⟩)

end Loops

end Copying

/-! ## When the target is filled -/

section Fill

variable {mem : Memory} {target source : Address} {s : Name} {n : Nat}

/-- A target outside the string: the loop stops at the terminator, or where the room ends, and the
bytes behind that stay as they were. -/
theorem stringcopyLoop_apart (held : CstringAt mem source s) (bound : n < 2147483647)
    (apart : ¬ InString target source s) :
    (∀ i ≤ n, ((Copying.start mem).stringcopyLoop n target source).mem (cell target i) =
      if i < min s.length n then s.char i else if i = min s.length n then 0
      else mem (cell target i)) ∧
      ∀ x ∈ ((Copying.start mem).stringcopyLoop n target source).written,
        x ∈ span target (min s.length n + 1) := by
  have reads : ∀ i ≤ s.length, mem (cell source (i % distance target source)) = s.char i :=
    fun i le => Copying.reads_string (c := .start mem) held apart le
  obtain ⟨result, written⟩ := @Copying.stringcopyLoop_stop (.start mem) target source n
    (min s.length n) (Nat.min_le_right ..) (by omega)
    (fun j less => by
      change mem _ ≠ 0
      rw [reads j (by omega)]
      exact s.char_ne_zero (by omega))
    (fun less => by
      change mem _ = 0
      rw [reads _ (by omega)]
      exact s.char_of_le (by omega))
  refine ⟨fun i inside => ?_, fun x mem => (written x mem).resolve_left List.not_mem_nil⟩
  rw [result]
  by_cases here : i = min s.length n
  · rw [here, if_pos rfl, if_neg (Nat.lt_irrefl _), if_pos rfl]
  · rw [if_neg fun same => here (cell_inj (by omega) (by omega) same), if_neg here]
    split
    · rename_i before
      rw [Copying.byteLoop_cell _ _ _ (by omega) i before]
      exact reads i (by omega)
    · exact Copying.byteLoop_outside _ _ _ _ (cell_not_mem_span (by omega) (by omega))

theorem fills_apart_iff (held : CstringAt mem source s) (bound : n < 2147483647)
    (apart : ¬ InString target source s) :
    Fills ((Copying.start mem).stringcopyLoop n target source) target s (n + 1) ↔
      TailCleared mem target s (n + 1) := by
  obtain ⟨result, written⟩ := stringcopyLoop_apart held bound apart
  constructor
  · intro fills i low high
    have padded := fills.padded i (by omega) high
    rwa [result i (by omega), if_neg (by omega), if_neg (by omega)] at padded
  · intro cleared
    refine ⟨fun i less => ?_, fun i low high => ?_, fun x mem => ?_⟩
    · rw [result i (by omega), if_pos (by omega)]
    · rw [result i (by omega), if_neg (by omega)]
      split
      · rfl
      · exact cleared i (by omega) high
    · obtain ⟨i, less, rfl⟩ := mem_span_cell.1 (written x mem)
      exact cell_mem_span (by omega)

/-- A target within the string: no terminator is read, and the copy repeats. -/
theorem fills_within_iff (held : CstringAt mem source s) (bound : n < 2147483647)
    (within : InString target source s) :
    Fills ((Copying.start mem).stringcopyLoop n target source) target s (n + 1) ↔
      Repeats target source s (n + 1) := by
  have reads := Copying.reads_within (c := .start mem) held within
  obtain ⟨result, written⟩ := @Copying.stringcopyLoop_stop (.start mem) target source n n
    (Nat.le_refl n) (by omega)
    (fun j _ => by
      rw [(reads j).1]
      exact (reads j).2)
    (fun less => absurd less (Nat.lt_irrefl n))
  have copied : ∀ i < n, ((Copying.start mem).stringcopyLoop n target source).mem (cell target i) =
      s.char (i % distance target source) := by
    intro i less
    rw [result, if_neg fun same => absurd (cell_inj (by omega) (by omega) same) (by omega),
      Copying.byteLoop_cell _ _ _ (by omega) i less]
    exact (reads i).1
  constructor
  · intro fills
    have full : n ≤ s.length := by
      by_contra short
      have zero := fills.padded s.length (by omega) (by omega)
      rw [copied _ (by omega)] at zero
      exact (reads s.length).2 zero
    have same : ∀ i < n, s.char i = s.char (i % distance target source) := by
      intro i less
      rw [← fills.copied i (by omega), copied i less]
    refine ⟨full, fun i less far => ?_⟩
    rw [same i less, same (i - distance target source) (by omega), Nat.mod_eq_sub_mod far]
  · rintro ⟨full, repeats⟩
    have same : ∀ i < n, s.char (i % distance target source) = s.char i := by
      intro i
      induction i using Nat.strong_induction_on with
      | _ i ih =>
          intro less
          by_cases far : distance target source ≤ i
          · have positive := within.1
            rw [Nat.mod_eq_sub_mod far, ih _ (by omega) (by omega), repeats i less far]
          · rw [Nat.mod_eq_of_lt (by omega)]
    change n ≤ s.length at full
    refine ⟨fun i less => ?_, fun i low high => ?_, fun x mem => ?_⟩
    · rw [copied i (by omega), same i (by omega)]
    · obtain rfl : i = n := by omega
      rw [result, if_pos rfl]
    · rcases written x mem with none | inside
      · cases none
      · exact inside

/-- **When `stringcopy` fills its target**: what is behind the terminator was zero before. -/
theorem stringcopy_fills_iff (held : CstringAt mem source s) (target : Address) {buflen : CInt}
    (positive : 1 ≤ buflen.val) :
    Fills ((Copying.start mem).stringcopy target source buflen) target s buflen.val.toNat ↔
      (¬ InString target source s ∧ TailCleared mem target s buflen.val.toNat) ∨
        (InString target source s ∧ Repeats target source s buflen.val.toNat) := by
  have high := buflen.property.2
  obtain ⟨n, length⟩ : ∃ n, buflen.val.toNat = n + 1 := ⟨buflen.val.toNat - 1, by omega⟩
  have rounds : (buflen.val - 1).toNat = n := by omega
  rw [Copying.stringcopy, rounds, length]
  by_cases within : InString target source s
  · rw [fills_within_iff held (by omega) within]
    simp [within]
  · rw [fills_apart_iff held (by omega) within]
    simp [within]

end Fill

end Buenos.Lib
