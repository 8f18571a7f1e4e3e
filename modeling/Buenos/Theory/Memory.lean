/-
# Theory.Memory -- words in a memory of bytes

A memory gives every address a byte.  A word of four bytes is read and written at once,
the first byte highest; a write is seen by a read of the same word and by no read of a
word that does not overlap it.
-/
import Mathlib.Data.Nat.Bitwise
import Mathlib.Tactic.Common

namespace Buenos.Theory

set_option autoImplicit false

abbrev Memory := Nat → BitVec 8

def loadWord (mem : Memory) (addr : Nat) : BitVec 32 :=
  mem addr ++ mem (addr + 1) ++ mem (addr + 2) ++ mem (addr + 3)

def storeWord (mem : Memory) (addr : Nat) (value : BitVec 32) : Memory := fun x =>
  if x = addr then value.extractLsb' 24 8
  else if x = addr + 1 then value.extractLsb' 16 8
  else if x = addr + 2 then value.extractLsb' 8 8
  else if x = addr + 3 then value.extractLsb' 0 8
  else mem x

theorem loadWord_congr {mem mem' : Memory} {addr : Nat}
    (same : ∀ x, addr ≤ x → x < addr + 4 → mem' x = mem x) : loadWord mem' addr = loadWord mem addr := by
  unfold loadWord
  rw [same addr (by omega) (by omega), same (addr + 1) (by omega) (by omega),
    same (addr + 2) (by omega) (by omega), same (addr + 3) (by omega) (by omega)]

theorem storeWord_of_outside (mem : Memory) {addr x : Nat} (value : BitVec 32)
    (outside : x < addr ∨ addr + 4 ≤ x) : storeWord mem addr value x = mem x := by
  unfold storeWord
  rw [if_neg (by omega), if_neg (by omega), if_neg (by omega), if_neg (by omega)]

theorem bytes_append (value : BitVec 32) :
    value.extractLsb' 24 8 ++ value.extractLsb' 16 8 ++ value.extractLsb' 8 8 ++
      value.extractLsb' 0 8 = value := by
  apply BitVec.eq_of_toNat_eq
  have small := value.isLt
  simp only [BitVec.toNat_append, BitVec.extractLsb'_toNat, Nat.shiftRight_eq_div_pow]
  rw [← Nat.shiftLeft_add_eq_or_of_lt (by omega), ← Nat.shiftLeft_add_eq_or_of_lt (by omega),
    ← Nat.shiftLeft_add_eq_or_of_lt (by omega)]
  simp only [Nat.shiftLeft_eq]
  omega

/-- The bytes of a word spelled by four bytes. -/
theorem extract_append (a b c d : BitVec 8) :
    (a ++ b ++ c ++ d).extractLsb' 24 8 = a ∧ (a ++ b ++ c ++ d).extractLsb' 16 8 = b ∧
      (a ++ b ++ c ++ d).extractLsb' 8 8 = c ∧ (a ++ b ++ c ++ d).extractLsb' 0 8 = d := by
  refine ⟨?_, ?_, ?_, ?_⟩ <;>
  · apply BitVec.eq_of_getLsbD_eq
    intro k bound
    simp only [BitVec.getLsbD_extractLsb', BitVec.getLsbD_append]
    grind

@[simp] theorem loadWord_storeWord (mem : Memory) (addr : Nat) (value : BitVec 32) :
    loadWord (storeWord mem addr value) addr = value := by
  simp [loadWord, storeWord, bytes_append]

theorem loadWord_storeWord_of_apart (mem : Memory) {addr other : Nat} (value : BitVec 32)
    (apart : other + 4 ≤ addr ∨ addr + 4 ≤ other) :
    loadWord (storeWord mem addr value) other = loadWord mem other :=
  loadWord_congr fun _ above below => storeWord_of_outside mem value (by omega)

/-! ## Word boundaries -/

theorem toNat_and_not_three (x : BitVec 32) :
    (x &&& 0xfffffffc#32).toNat = x.toNat / 4 * 4 := by
  rw [BitVec.toNat_and]
  apply Nat.eq_of_testBit_eq
  intro i
  have mask : (0xfffffffc#32).toNat = (2 ^ 30 - 1) * 2 ^ 2 := by decide
  have small : x.toNat < 2 ^ 32 := x.isLt
  have high : 32 ≤ i → x.toNat.testBit i = false := fun past =>
    Nat.testBit_lt_two_pow (small.trans_le (Nat.pow_le_pow_right (by decide) past))
  rw [mask, show x.toNat / 4 * 4 = x.toNat / 2 ^ 2 * 2 ^ 2 by rfl, Nat.testBit_and,
    Nat.testBit_mul_two_pow, Nat.testBit_mul_two_pow, Nat.testBit_two_pow_sub_one,
    Nat.testBit_div_two_pow]
  by_cases low : 2 ≤ i
  · by_cases inside : i < 32
    · have : i - 2 + 2 = i := by omega
      simp [low, this, show i - 2 < 30 by omega]
    · have : i - 2 + 2 = i := by omega
      simp [this, high (by omega)]
  · simp [low]

theorem toNat_and_three (x : BitVec 32) : (x &&& 0x03#32).toNat = x.toNat % 4 := by
  rw [BitVec.toNat_and]
  exact Nat.and_two_pow_sub_one_eq_mod x.toNat 2

end Buenos.Theory
