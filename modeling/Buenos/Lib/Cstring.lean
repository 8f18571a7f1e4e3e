/-
# Lib.Cstring -- strings in memory

A string in memory, and what a copy that goes forward byte by byte makes of it.  Where the target
lies `d` bytes behind the source, the copy reads what it has written `d` rounds before: byte `i` of
the target becomes byte `i % d` of the source (`byteLoop_cell`).  So the copy of a string is the
string, unless the target is one of its bytes behind the first (`InString`), and then no terminator
is ever read.
-/
import Buenos.Lib.Memcopy

namespace Buenos.Lib

open Buenos.Theory

set_option autoImplicit false

/-- The address of `p[i]`. -/
def cell (p : Address) (i : Nat) : Nat := (p + BitVec.ofNat 32 i).toNat

/-- Byte `i` of the array that holds a string: a character, or the terminator. -/
def Name.char (s : Name) (i : Nat) : Byte := s.bytes.getD i 0

def CstringAt (mem : Memory) (p : Address) (s : Name) : Prop :=
  ∀ i ≤ s.length, mem (cell p i) = s.char i

instance (mem : Memory) (p : Address) (s : Name) : Decidable (CstringAt mem p s) := by
  unfold CstringAt; infer_instance

/-- How far the target lies behind the source, round the end of memory. -/
def distance (target source : Address) : Nat := (target - source).toNat

/-- The target points to a byte of the string behind its first one. -/
def InString (target source : Address) (s : Name) : Prop :=
  0 < distance target source ∧ distance target source ≤ s.length

instance (target source : Address) (s : Name) : Decidable (InString target source s) := by
  unfold InString; infer_instance

namespace Copying

/-- `*p = c` -/
def put (c : Copying) (p : Address) (b : Byte) : Copying :=
  { c with mem := Function.update c.mem p.toNat b, written := c.written ++ [p.toNat] }

/-- Nothing has been read or written yet. -/
def start (mem : Memory) : Copying := { mem, read := [], written := [] }

end Copying

/-! ## Addresses -/

section Cells

variable {p : Address} {i j n x : Nat}

theorem next_index (i : Nat) : BitVec.ofNat 32 i + 1 = BitVec.ofNat 32 (i + 1) :=
  (BitVec.ofNat_add i 1).symm

theorem cell_add (p : Address) (m i : Nat) : cell (p + BitVec.ofNat 32 m) i = cell p (m + i) := by
  rw [cell, cell, BitVec.add_assoc, ← BitVec.ofNat_add]

theorem cell_eq_iff : cell p i = cell p j ↔ i % 4294967296 = j % 4294967296 := by
  rw [cell, cell, BitVec.toNat_inj, BitVec.add_right_inj, ← BitVec.toNat_inj, BitVec.toNat_ofNat,
    BitVec.toNat_ofNat]

theorem cell_inj (low : i < 4294967296) (high : j < 4294967296) (same : cell p i = cell p j) :
    i = j := by
  rw [cell_eq_iff] at same
  omega

theorem mem_span_cell : x ∈ span p n ↔ ∃ i < n, x = cell p i := mem_span

theorem cell_mem_span (less : i < n) : cell p i ∈ span p n := mem_span_cell.2 ⟨i, less, rfl⟩

/-- A cell behind a span that does not go round memory. -/
theorem cell_not_mem_span (le : n ≤ i) (bound : i < 4294967296) : cell p i ∉ span p n := by
  intro inside
  obtain ⟨j, less, same⟩ := mem_span_cell.1 inside
  have := cell_inj bound (by omega) same
  omega

theorem cell_distance (target source : Address) (i : Nat) :
    cell target i = cell source (distance target source + i) := by
  rw [← cell_add, distance, BitVec.ofNat_toNat, BitVec.setWidth_eq, BitVec.add_comm source,
    BitVec.sub_add_cancel]

end Cells

/-! ## Characters -/

section Characters

variable {s : Name} {i : Nat}

theorem Name.char_of_lt (s : Name) (inside : i < s.length) : s.char i = s[i].val := by
  simp [Name.char, Name.bytes, inside]

theorem Name.char_of_le (s : Name) (past : s.length ≤ i) : s.char i = 0 := by
  simp [Name.char, Name.bytes, past]

theorem Name.char_ne_zero (s : Name) (inside : i < s.length) : s.char i ≠ 0 := by
  rw [s.char_of_lt inside]
  exact s[i].property

theorem Name.char_append (s t : Name) (i : Nat) :
    Name.char (s ++ t) i = if i < s.length then s.char i else t.char (i - s.length) := by
  split
  · rename_i inside
    rw [Name.char_of_lt _ (by simp; omega), Name.char_of_lt _ inside, List.getElem_append_left]
  · rename_i outside
    by_cases inside : i < s.length + t.length
    · rw [Name.char_of_lt _ (by simpa using inside), Name.char_of_lt _ (by omega),
        List.getElem_append_right (by omega)]
    · rw [Name.char_of_le _ (by simp; omega), Name.char_of_le _ (by omega)]

/-- A string has its terminator in memory, so it is shorter than memory. -/
theorem CstringAt.length_lt {mem : Memory} {p : Address} (held : CstringAt mem p s) :
    s.length < 4294967296 := by
  by_contra long
  have last := held s.length (Nat.le_refl _)
  have early := held (s.length - 4294967296) (by omega)
  rw [cell_eq_iff.2 (show s.length % 4294967296 = (s.length - 4294967296) % 4294967296 by omega),
    early, s.char_of_le (Nat.le_refl _)] at last
  exact s.char_ne_zero (by omega) last

end Characters

/-! ## Copying forward -/

namespace Copying

variable (c : Copying) (target source : Address)

theorem byteLoop_succ (k : Nat) : c.byteLoop (k + 1) target source =
    (c.byteLoop k target source).byte (target + BitVec.ofNat 32 k) (source + BitVec.ofNat 32 k) := by
  rw [byteLoop_add]
  rfl

/-- What the last round adds. -/
theorem byteLoop_succ_mem (k x : Nat) : (c.byteLoop (k + 1) target source).mem x =
    if x = cell target k then (c.byteLoop k target source).mem (cell source k)
    else (c.byteLoop k target source).mem x := by
  rw [byteLoop_succ]
  exact Function.update_apply ..

theorem byteLoop_outside (k : Nat) {x : Nat} (outside : x ∉ span target k) :
    (c.byteLoop k target source).mem x = c.mem x := by
  induction k with
  | zero => rfl
  | succ k ih =>
      rw [mem_span_cell] at outside
      rw [byteLoop_succ_mem, if_neg fun same => outside ⟨k, Nat.lt_succ_self k, same⟩]
      exact ih fun inside => by
        obtain ⟨i, less, same⟩ := mem_span_cell.1 inside
        exact outside ⟨i, by omega, same⟩

/-- What a round reads: a byte of the source, or what was written `distance` rounds before. -/
theorem byteLoop_next {k : Nat} (bound : k < 4294967296)
    (written : ∀ j < k, (c.byteLoop k target source).mem (cell target j) =
      c.mem (cell source (j % distance target source))) :
    (c.byteLoop k target source).mem (cell source k) =
      c.mem (cell source (k % distance target source)) := by
  by_cases behind : 0 < distance target source ∧ distance target source ≤ k
  · obtain ⟨positive, le⟩ := behind
    have here : cell source k = cell target (k - distance target source) := by
      rw [cell_distance target source]
      congr 1
      omega
    rw [here, written _ (by omega), Nat.mod_eq_sub_mod le]
  · have same : k % distance target source = k := by
      rcases Nat.eq_zero_or_pos (distance target source) with zero | positive
      · rw [zero, Nat.mod_zero]
      · exact Nat.mod_eq_of_lt (by omega)
    rw [same]
    refine c.byteLoop_outside target source k fun inside => ?_
    obtain ⟨j, less, here⟩ := mem_span_cell.1 inside
    have far : distance target source < 4294967296 := (target - source).isLt
    rw [cell_distance target source, cell_eq_iff] at here
    omega

/-- **Copying forward.** -/
theorem byteLoop_cell {k : Nat} (bound : k ≤ 4294967296) : ∀ j < k,
    (c.byteLoop k target source).mem (cell target j) =
      c.mem (cell source (j % distance target source)) := by
  induction k with
  | zero => exact fun j less => absurd less (Nat.not_lt_zero j)
  | succ k ih =>
      intro j less
      have before := ih (by omega)
      rw [byteLoop_succ_mem]
      by_cases last : j = k
      · rw [last, if_pos rfl]
        exact c.byteLoop_next target source (by omega) before
      · rw [if_neg fun same => last (cell_inj (p := target) (by omega) (by omega) same)]
        exact before j (by omega)

section Strings

variable {c target source} {s : Name} (held : CstringAt c.mem source s)

include held

/-- A target that is not within the string: the copy reads its characters. -/
theorem reads_string (apart : ¬ InString target source s) {i : Nat} (inside : i ≤ s.length) :
    c.mem (cell source (i % distance target source)) = s.char i := by
  have same : i % distance target source = i := by
    rcases Nat.eq_zero_or_pos (distance target source) with zero | positive
    · rw [zero, Nat.mod_zero]
    · refine Nat.mod_eq_of_lt ?_
      rw [InString, not_and] at apart
      have := apart positive
      omega
  rw [same, held i inside]

/-- A target within the string: the copy reads the characters before it over and over. -/
theorem reads_within (within : InString target source s) (i : Nat) :
    c.mem (cell source (i % distance target source)) = s.char (i % distance target source) ∧
      s.char (i % distance target source) ≠ 0 := by
  have less := Nat.mod_lt i within.1
  have inside := within.2
  exact ⟨held _ (by omega), s.char_ne_zero (by omega)⟩

end Strings

end Copying

/-! ## A string in memory -/

/-- The string `b` at address 100, and one byte everywhere else. -/
def twoArrays (rest : Byte) : Memory := fun x => if x = 100 then 0x62 else if x = 101 then 0 else rest

def letterB : Name := [⟨0x62, by decide⟩]

theorem twoArrays_source (rest : Byte) : CstringAt (twoArrays rest) 100 letterB := by
  intro i inside
  obtain rfl | rfl : i = 0 ∨ i = 1 := by
    change i ≤ 1 at inside
    omega
  · rfl
  · rfl

end Buenos.Lib
