/-
# Fs.SplitPath -- splitting a path at its first slash

`split_path` of fs/newfs.c, over memory by byte address.  Its loop goes on while a character is not
a slash or not the terminator, which every character is, so `splitPath` does not end on any string
(`splitPath_unending`), and nothing that is claimed of it holds (`splitPath_never`).
-/
import Buenos.Lib.Libc
import Buenos.Lib.Bitmap
import Buenos.Theory.Loop
import Mathlib.Logic.Function.Basic

namespace Buenos.Fs

open Buenos.Lib Buenos.Theory

set_option autoImplicit false

/-- `'/'`. -/
def slash : CChar := ⟨0x2f#8, by decide⟩

/-- A round of `while (*filepath != '/' || *filepath != '\0') filepath++`. -/
def splitRound (memory : Word → Byte) (filepath : Word) : Option (Word ⊕ Word) :=
  if memory filepath ≠ slash.val ∨ memory filepath ≠ 0 then some (.inl (filepath + 1))
  else some (.inr filepath)

/-- The pointer returned, with the memory left behind.  `new = filepath++` is the pointer before it
is moved on. -/
def splitPath (rounds : Nat) (memory : Word → Byte) (filepath : Word) :
    Option (Option Word × (Word → Byte)) :=
  (loop (splitRound memory) rounds filepath).map fun filepath =>
    if memory filepath = 0 then (none, memory)
    else (some filepath, Function.update memory filepath 0)

/-- The string at an address. -/
def StringAt (memory : Word → Byte) (address : Word) (s : Name) : Prop :=
  (∀ i (inside : i < s.length), memory (address + BitVec.ofNat 32 i) = (s[i]).val) ∧
    memory (address + BitVec.ofNat 32 s.length) = 0

/-- What is claimed of a split of `s`: without a slash there is no pointer and no change, and with
one the string is cut there and the pointer is to the rest. -/
def SplitsAtSlash (memory : Word → Byte) (filepath : Word) (s : Name) : Prop :=
  ∃ rounds new after, splitPath rounds memory filepath = some (new, after) ∧
    ((slash ∉ s ∧ new = none ∧ after = memory) ∨
      ∃ before rest address, s = before ++ slash :: rest ∧ slash ∉ before ∧ new = some address ∧
        StringAt after filepath before ∧ StringAt after address rest)

/-- The loop is never left. -/
theorem splitPath_unending (memory : Word → Byte) (filepath : Word) (rounds : Nat) :
    splitPath rounds memory filepath = none := by
  rw [splitPath, Option.map_eq_none_iff]
  refine @loop_trap _ _ (splitRound memory) (fun _ => True) (fun p _ => .inr ⟨p + 1, ?_, trivial⟩)
    filepath trivial rounds
  -- no character is both the slash and the terminator
  have goes : memory p ≠ slash.val ∨ memory p ≠ 0 := by
    by_contra both
    rw [not_or, not_not, not_not] at both
    exact slash.property (both.1.symm.trans both.2)
  exact if_pos goes

/-- **No string is split.** -/
theorem splitPath_never (memory : Word → Byte) (filepath : Word) (s : Name) :
    ¬ SplitsAtSlash memory filepath s := by
  rintro ⟨rounds, new, after, ran, -⟩
  rw [splitPath_unending] at ran
  cases ran

/-- Memory that holds `"a/b"` at address 0. -/
def pathMemory : Word → Byte := fun a =>
  if a = 0 then 0x61 else if a = 1 then slash.val else if a = 2 then 0x62 else 0

/-- It is never split. -/
theorem splitPath_slash : ¬ ∃ rounds r, splitPath rounds pathMemory 0 = some r := by
  rintro ⟨rounds, r, ran⟩
  rw [splitPath_unending] at ran
  cases ran

end Buenos.Fs
