/-
# Theory.Congruential -- linear congruential generators

The generator `x ↦ a * x + c` modulo a power of two.  If `a` is one more than a multiple of four
and `c` is odd, the states of `2 ^ w` steps are all the words there are, each once
(`lcg_iterate_eq_iff`, `card_lcg`).  The distance of `n` steps is the sum of the first `n` powers
of `a` times an odd number, and that sum has as many factors two as `n`.

A generator is read by scaling: `x * r / 2 ^ w` is less than `r`, and `card_scaled` says how often
each value comes up among all words.
-/
import Mathlib.Algebra.Ring.GeomSum
import Mathlib.Data.BitVec
import Mathlib.Data.Nat.ModEq
import Mathlib.NumberTheory.Multiplicity
import Mathlib.RingTheory.Coprime.Lemmas
import Mathlib.Order.Interval.Finset.Nat
import Mathlib.Data.Int.ModEq
import Mathlib.Tactic.Ring

namespace Buenos.Theory

set_option autoImplicit false

open Finset

section Ring

variable {R : Type} [CommRing R]

/-- One step. -/
def lcg (a c x : R) : R := a * x + c

/-- How far `n` steps go. -/
theorem lcg_iterate_sub (a c x : R) (n : Nat) :
    (lcg a c)^[n] x - x = (∑ i ∈ range n, a ^ i) * ((a - 1) * x + c) := by
  induction n with
  | zero => simp
  | succ n ih =>
      have before : (lcg a c)^[n] x = (∑ i ∈ range n, a ^ i) * ((a - 1) * x + c) + x :=
        sub_eq_iff_eq_add.1 ih
      rw [Function.iterate_succ_apply', before, lcg, geom_sum_succ]
      ring

end Ring

/-- The sum of the first `n` powers of `a` has the factors two of `n`. -/
theorem two_pow_dvd_geom_sum {a : ℤ} (one : 4 ∣ a - 1) (w n : Nat) :
    (2 : ℤ) ^ w ∣ ∑ i ∈ range n, a ^ i ↔ (2 : ℤ) ^ w ∣ n := by
  by_cases same : a = 1
  · simp [same]
  · have odd : ¬ (2 : ℤ) ∣ a := by omega
    have lifted := Int.two_pow_sub_pow' n one odd
    rw [one_pow, ← geom_sum_mul, emultiplicity_mul Int.prime_two, add_comm] at lifted
    have finite : emultiplicity 2 (a - 1) ≠ ⊤ := by
      rw [ne_eq, emultiplicity_eq_top, not_not]
      exact Int.finiteMultiplicity_iff.2 ⟨by decide, sub_ne_zero.2 same⟩
    have factors := WithTop.add_left_cancel finite lifted
    rw [pow_dvd_iff_le_emultiplicity, pow_dvd_iff_le_emultiplicity, factors]

/-- A generator is back after `n` steps exactly if the modulus divides `n`. -/
theorem two_pow_dvd_lcg {a c : ℤ} (one : 4 ∣ a - 1) (odd : ¬ 2 ∣ c) (x : ℤ) (w n : Nat) :
    (2 : ℤ) ^ w ∣ (lcg a c)^[n] x - x ↔ (2 : ℤ) ^ w ∣ n := by
  rw [lcg_iterate_sub, ← two_pow_dvd_geom_sum one]
  have two : (2 : ℤ) ∣ (a - 1) * x := Dvd.dvd.mul_right (by omega) x
  have coprime : IsCoprime ((2 : ℤ) ^ w) ((a - 1) * x + c) := by
    obtain ⟨k, half⟩ := two
    obtain ⟨j, rest⟩ : ∃ j, c = 2 * j + 1 := ⟨c / 2, by omega⟩
    exact IsCoprime.pow_left ⟨-(k + j), 1, by rw [half, rest]; ring⟩
  exact ⟨coprime.dvd_of_dvd_mul_right, fun divides => divides.mul_right _⟩

section Words

variable {w : Nat} {a c : ℤ}

theorem intCast_eq_iff (u v : ℤ) : (u : BitVec w) = (v : BitVec w) ↔ (2 : ℤ) ^ w ∣ u - v := by
  have positive : (2 : ℤ) ^ w ≠ 0 := by positivity
  rw [← BitVec.toNat_inj, BitVec.toNat_intCast, BitVec.toNat_intCast, ← Int.ofNat_inj,
    Int.toNat_of_nonneg (Int.emod_nonneg u positive),
    Int.toNat_of_nonneg (Int.emod_nonneg v positive)]
  rw [Int.emod_eq_emod_iff_emod_sub_eq_zero, Int.dvd_iff_emod_eq_zero]

theorem lcg_intCast (x : ℤ) (n : Nat) :
    (lcg (a : BitVec w) (c : BitVec w))^[n] (x : BitVec w) = ((lcg a c)^[n] x : ℤ) := by
  induction n with
  | zero => rfl
  | succ n ih =>
      rw [Function.iterate_succ_apply', Function.iterate_succ_apply', ih, lcg, lcg]
      push_cast
      rfl

/-- Back after `n` steps. -/
theorem lcg_iterate_eq_self (one : 4 ∣ a - 1) (odd : ¬ 2 ∣ c) (x : BitVec w) (n : Nat) :
    (lcg (a : BitVec w) (c : BitVec w))^[n] x = x ↔ 2 ^ w ∣ n := by
  obtain ⟨z, rfl⟩ : ∃ z : ℤ, (z : BitVec w) = x := ⟨x.toInt, BitVec.ofInt_toInt⟩
  rw [lcg_intCast, intCast_eq_iff, two_pow_dvd_lcg one odd]
  exact_mod_cast Int.natCast_dvd_natCast

/-- **Full period**: two states of a run are the same exactly if their numbers are, modulo the
number of words. -/
theorem lcg_iterate_eq_iff (one : 4 ∣ a - 1) (odd : ¬ 2 ∣ c) (x : BitVec w) (m n : Nat) :
    (lcg (a : BitVec w) (c : BitVec w))^[m] x = (lcg (a : BitVec w) (c : BitVec w))^[n] x ↔
      m ≡ n [MOD 2 ^ w] := by
  wlog le : m ≤ n generalizing m n
  · rw [eq_comm, this n m (by omega)]
    exact ⟨Nat.ModEq.symm, Nat.ModEq.symm⟩
  · obtain ⟨k, rfl⟩ := Nat.exists_eq_add_of_le le
    rw [add_comm m k, Function.iterate_add_apply, eq_comm, lcg_iterate_eq_self one odd]
    rw [Nat.modEq_iff_dvd' (by omega), Nat.add_sub_cancel]

/-- A property has as many states among `2 ^ w` consecutive ones as words. -/
theorem card_lcg (one : 4 ∣ a - 1) (odd : ¬ 2 ∣ c) (x : BitVec w) (p : Nat → Prop)
    [DecidablePred p] :
    ((range (2 ^ w)).filter fun n => p ((lcg (a : BitVec w) (c : BitVec w))^[n] x).toNat).card =
      ((range (2 ^ w)).filter p).card := by
  have injective : Set.InjOn
      (fun n => ((lcg (a : BitVec w) (c : BitVec w))^[n] x).toNat) (range (2 ^ w)) := by
    intro m first n second same
    have same := (lcg_iterate_eq_iff one odd x m n).1 (BitVec.eq_of_toNat_eq same)
    rw [coe_range, Set.mem_Iio] at first second
    rw [← Nat.mod_eq_of_lt first, same, Nat.mod_eq_of_lt second]
  have all : (range (2 ^ w)).image
      (fun n => ((lcg (a : BitVec w) (c : BitVec w))^[n] x).toNat) = range (2 ^ w) := by
    apply eq_of_subset_of_card_le
    · intro y there
      obtain ⟨n, -, rfl⟩ := mem_image.1 there
      exact mem_range.2 (BitVec.isLt _)
    · rw [card_image_of_injOn injective]
  calc ((range (2 ^ w)).filter fun n => p ((lcg (a : BitVec w) (c : BitVec w))^[n] x).toNat).card
      = (((range (2 ^ w)).filter fun n => p ((lcg (a : BitVec w) (c : BitVec w))^[n] x).toNat).image
          fun n => ((lcg (a : BitVec w) (c : BitVec w))^[n] x).toNat).card :=
        (card_image_of_injOn (injective.mono fun _ there => filter_subset _ _ there)).symm
    _ = ((range (2 ^ w)).filter p).card := by rw [← filter_image, all]

end Words

/-- How often each scaled value comes up: as often as the others, or once more. -/
theorem card_scaled {M r v : Nat} (positive : 0 < r) (below : v < r) :
    M / r ≤ ((range M).filter fun n => n * r / M = v).card ∧
      ((range M).filter fun n => n * r / M = v).card ≤ M / r + 1 := by
  rcases Nat.eq_zero_or_pos M with rfl | some
  · simp
  · have shape : ((range M).filter fun n => n * r / M = v) =
        Ico ((v * M + (r - 1)) / r) (((v + 1) * M + (r - 1)) / r) := by
      ext n
      have up : ∀ k, (k * M + (r - 1)) / r ≤ n ↔ k * M ≤ n * r := by
        intro k
        rw [Nat.div_le_iff_le_mul_add_pred positive, mul_comm r n]
        omega
      have inside : n * r < (v + 1) * M → n < M := by
        intro less
        have : (v + 1) * M ≤ r * M := Nat.mul_le_mul_right M below
        exact Nat.lt_of_mul_lt_mul_right (a := r) (by rw [mul_comm M r]; omega)
      rw [mem_filter, mem_range, mem_Ico, up v, lt_iff_not_ge (a := n) (b := (_ + _) / r),
        up (v + 1), not_le]
      constructor
      · rintro ⟨-, rfl⟩
        exact ⟨Nat.div_mul_le_self _ _, Nat.lt_mul_of_div_lt (Nat.lt_succ_self _) some⟩
      · rintro ⟨low, high⟩
        exact ⟨inside high, Nat.div_eq_of_lt_le low high⟩
    rw [shape, Nat.card_Ico]
    have whole : (v + 1) * M + (r - 1) = v * M + M % r + (r - 1) + r * (M / r) := by
      have := Nat.div_add_mod M r
      rw [Nat.add_one_mul]
      omega
    have part := Nat.mod_lt M positive
    rw [whole, Nat.add_mul_div_left _ _ positive]
    have low : (v * M + (r - 1)) / r ≤ (v * M + M % r + (r - 1)) / r :=
      Nat.div_le_div_right (by omega)
    have high : (v * M + M % r + (r - 1)) / r ≤ (v * M + (r - 1)) / r + 1 := by
      rw [← Nat.add_div_right _ positive]
      exact Nat.div_le_div_right (by omega)
    generalize (v * M + (r - 1)) / r = first at low high ⊢
    generalize (v * M + M % r + (r - 1)) / r = last at low high ⊢
    generalize M / r = each
    omega

end Buenos.Theory
