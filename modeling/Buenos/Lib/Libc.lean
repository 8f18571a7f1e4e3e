/-
# Lib.Libc -- C strings

A C string is modelled by the bytes before its terminator, so it is a list of
bytes none of which is zero (`CChar`).  `stringcmp` follows lib/libc.c byte by
byte; what its callers use of it is `stringcmp_eq_zero`.  `stringcopy` is read at
the level of strings: a target of `buflen` bytes ends up holding the first
`buflen - 1` characters of the source.
-/
import Mathlib.Tactic.Common

namespace Buenos.Lib

set_option autoImplicit false

abbrev Byte := BitVec 8

/-- A character of a C string: a byte that is not the terminator. -/
abbrev CChar := { b : Byte // b ≠ 0 }

/-- A C string, up to its terminator. -/
abbrev Name := List CChar

/-- The string that starts a byte sequence: what a reader sees of a `char` array. -/
def cstring : List Byte → Name
  | [] => []
  | b :: bytes => if h : b = 0 then [] else ⟨b, h⟩ :: cstring bytes

/-- The bytes a string occupies, terminator left out. -/
def Name.bytes (name : Name) : List Byte := name.map Subtype.val

/-- Byte difference at the first position where the strings differ, zero if there
is none. -/
def stringcmp : Name → Name → Int
  | [], [] => 0
  | a :: _, [] => a.val.toNat
  | [], b :: _ => -(b.val.toNat : Int)
  | a :: s, b :: t => if a ≠ b then (a.val.toNat : Int) - b.val.toNat else stringcmp s t

/-- The values of an `int`. -/
abbrev CInt := { i : Int // -0x80000000 ≤ i ∧ i < 0x80000000 }

/-- The value a `uint32_t` variable takes when `x` is stored in it. -/
def toUint32 (x : Int) : Nat := (x % 0x100000000).toNat

/-- The string that a terminated name spells. -/
theorem cstring_append (name : Name) (rest : List Byte) :
    cstring (name.bytes ++ 0#8 :: rest) = name := by
  induction name with
  | nil => simp [Name.bytes, cstring]
  | cons c name ih =>
      have nonzero : c.val ≠ 0 := c.property
      unfold Name.bytes at ih ⊢
      rw [List.map_cons, List.cons_append, cstring, dif_neg nonzero, ih]

theorem CChar.toNat_ne_zero (a : CChar) : a.val.toNat ≠ 0 := by
  intro zero
  apply a.property
  apply BitVec.eq_of_toNat_eq
  simpa using zero

theorem CChar.toNat_injective {a b : CChar} (same : a.val.toNat = b.val.toNat) : a = b :=
  Subtype.ext (BitVec.eq_of_toNat_eq same)

theorem stringcmp_eq_zero (s t : Name) : stringcmp s t = 0 ↔ s = t := by
  induction s generalizing t with
  | nil =>
      cases t with
      | nil => simp [stringcmp]
      | cons b t =>
          have := CChar.toNat_ne_zero b
          simp only [stringcmp, reduceCtorEq, iff_false]
          omega
  | cons a s ih =>
      cases t with
      | nil =>
          have := CChar.toNat_ne_zero a
          simp only [stringcmp, reduceCtorEq, iff_false]
          omega
      | cons b t =>
          by_cases same : a = b
          · simp [stringcmp, same, ih]
          · have : a.val.toNat ≠ b.val.toNat := fun h => same (CChar.toNat_injective h)
            simp only [stringcmp, ne_eq, same, not_false_eq_true, if_true, List.cons.injEq,
              false_and, iff_false]
            omega

/-- The string left in a `buflen`-byte target by copying `source` into it. -/
def stringcopy (source : Name) (buflen : Nat) : Name := source.take (buflen - 1)

theorem stringcopy_length (source : Name) (buflen : Nat) :
    (stringcopy source buflen).length ≤ buflen - 1 :=
  List.length_take_le _ _

end Buenos.Lib
