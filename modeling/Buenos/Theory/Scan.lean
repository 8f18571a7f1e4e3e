/-
# Theory.Scan -- scanning a table for the first entry that satisfies a test

`scan p n i` is the index at which the loop `for (; i < end; i++) if (p(i)) break;` stops,
with `n` rounds left.  It is the first index that satisfies `p`, or the end.

A cyclic scan starts anywhere and wraps; `cycle_covers` says that one round of it meets every
index.
-/
import Mathlib.Tactic.Common

namespace Buenos.Theory

set_option autoImplicit false

def scan (p : Nat → Bool) : Nat → Nat → Nat
  | 0, i => i
  | rounds + 1, i => if p i then i else scan p rounds (i + 1)

section Scan

variable {p : Nat → Bool}

theorem le_scan (n i : Nat) : i ≤ scan p n i := by
  induction n generalizing i with
  | zero => exact Nat.le_refl i
  | succ n ih =>
      rw [scan]
      split
      · exact Nat.le_refl i
      · exact Nat.le_of_succ_le (ih (i + 1))

theorem scan_le (n i : Nat) : scan p n i ≤ i + n := by
  induction n generalizing i with
  | zero => exact Nat.le_refl i
  | succ n ih =>
      rw [scan]
      split
      · exact Nat.le_add_right i _
      · have rest := ih (i + 1)
        omega

/-- A scan that stops early stops at an entry that satisfies the test. -/
theorem scan_found (n i : Nat) (early : scan p n i < i + n) : p (scan p n i) = true := by
  induction n generalizing i with
  | zero => exact absurd early (Nat.lt_irrefl _)
  | succ n ih =>
      rw [scan] at early ⊢
      split at early
      · rename_i holds
        rwa [if_pos holds]
      · rename_i fails
        rw [if_neg fails]
        exact ih (i + 1) (by omega)

theorem scan_before (n i j : Nat) (low : i ≤ j) (high : j < scan p n i) : p j = false := by
  induction n generalizing i with
  | zero => exact absurd (Nat.lt_of_le_of_lt low high) (Nat.lt_irrefl i)
  | succ n ih =>
      rw [scan] at high
      split at high
      · exact absurd (Nat.lt_of_le_of_lt low high) (Nat.lt_irrefl i)
      · rename_i fails
        by_cases first : j = i
        · subst first
          exact eq_false_of_ne_true fails
        · exact ih (i + 1) (by omega) high

/-- A scan does not go past an entry that satisfies the test. -/
theorem scan_le_hit {j : Nat} (n i : Nat) (low : i ≤ j) (hit : p j = true) : scan p n i ≤ j := by
  by_contra beyond
  have miss : p j = false := scan_before n i j low (by omega)
  rw [miss] at hit
  exact Bool.false_ne_true hit

/-- It stops at the first one. -/
theorem scan_first {n i j : Nat} (low : i ≤ j) (high : j < i + n) (hit : p j = true)
    (before : ∀ k, i ≤ k → k < j → p k = false) : scan p n i = j := by
  have stops := scan_le_hit n i low hit
  by_contra other
  have found : p (scan p n i) = true := scan_found n i (by omega)
  rw [before _ (le_scan n i) (by omega)] at found
  exact Bool.false_ne_true found

theorem scan_congr {q : Nat → Bool} {i : Nat} (same : ∀ k, i ≤ k → p k = q k) (n : Nat) :
    scan p n i = scan q n i := by
  induction n generalizing i with
  | zero => rfl
  | succ n ih => rw [scan, scan, same i (Nat.le_refl i), ih fun k past => same k (Nat.le_of_succ_le past)]

/-- The scan comes to its end exactly when no entry satisfies the test. -/
theorem scan_end_iff (n i : Nat) :
    scan p n i = i + n ↔ ∀ j, i ≤ j → j < i + n → p j = false := by
  constructor
  · intro ended j low high
    exact scan_before n i j low (by rwa [ended])
  · intro none
    by_contra early
    have less : scan p n i < i + n := Nat.lt_of_le_of_ne (scan_le n i) early
    have hit := scan_found n i less
    rw [none _ (le_scan n i) less] at hit
    exact Bool.false_ne_true hit

/-- The whole table, from its first entry. -/
theorem scan_zero_end_iff (n : Nat) : scan p n 0 = n ↔ ∀ j < n, p j = false := by
  have ended := scan_end_iff (p := p) n 0
  rw [Nat.zero_add] at ended
  rw [ended]
  exact ⟨fun none j => none j (Nat.zero_le j), fun none j _ => none j⟩

theorem scan_zero_found {n : Nat} (early : scan p n 0 ≠ n) :
    scan p n 0 < n ∧ p (scan p n 0) = true := by
  have bound := scan_le (p := p) n 0
  rw [Nat.zero_add] at bound
  have less := Nat.lt_of_le_of_ne bound early
  exact ⟨less, scan_found n 0 (by rwa [Nat.zero_add])⟩

end Scan

/-- Every index of a table of `n` entries is met in one round from `start`. -/
theorem cycle_covers {n start i : Nat} (inside : start < n) (less : i < n) :
    ∃ k < n, (start + k) % n = i := by
  by_cases ahead : start ≤ i
  · refine ⟨i - start, by omega, ?_⟩
    rw [Nat.add_sub_of_le ahead, Nat.mod_eq_of_lt less]
  · refine ⟨n - start + i, by omega, ?_⟩
    have sum : start + (n - start + i) = i + n := by omega
    rw [sum, Nat.add_mod_right, Nat.mod_eq_of_lt less]

end Buenos.Theory
