/-
# Theory.Reserve -- how many of the free resources a run keeps

The free resources before and after a run are finite sets.  `Reserved n before after` says
that the run freed nothing that was not free before and kept `n` of what was.  Runs in a row
add up (`Reserved.trans`), a resource that is taken first and given back last does not count
(`Reserved.borrow`), and only a run that keeps nothing leaves the set as it was
(`Reserved.same_iff`).

`Prog.Reserves free mark n m` says this of every run of `m` that returns, and that the run
leaves `mark` alone: the part of the state that tells what is to be given back later.
-/
import Buenos.Theory.Prog
import Mathlib.Data.Finset.Card

namespace Buenos.Theory

set_option autoImplicit false

universe u v w

structure Reserved {ρ : Type u} [DecidableEq ρ] (n : Nat) (before after : Finset ρ) : Prop where
  subset : after ⊆ before
  count : (before \ after).card = n

namespace Reserved

variable {ρ : Type u} [DecidableEq ρ] {before between after : Finset ρ} {m n : Nat}

theorem refl (free : Finset ρ) : Reserved 0 free free where
  subset := Finset.Subset.refl free
  count := by rw [Finset.sdiff_self, Finset.card_empty]

theorem of_same (same : after = before) : Reserved 0 before after := by
  rw [same]
  exact refl before

theorem trans (first : Reserved m before between) (second : Reserved n between after) :
    Reserved (m + n) before after where
  subset := second.subset.trans first.subset
  count := by
    have lost : before.card - between.card = m := by
      rw [← Finset.card_sdiff_of_subset first.subset, first.count]
    have lost' : between.card - after.card = n := by
      rw [← Finset.card_sdiff_of_subset second.subset, second.count]
    have le := Finset.card_le_card first.subset
    have le' := Finset.card_le_card second.subset
    rw [Finset.card_sdiff_of_subset (second.subset.trans first.subset)]
    omega

theorem take {r : ρ} (mem : r ∈ before) : Reserved 1 before (before.erase r) where
  subset := Finset.erase_subset r before
  count := by
    have pos := Finset.card_pos.2 ⟨r, mem⟩
    rw [Finset.card_sdiff_of_subset (Finset.erase_subset r before), Finset.card_erase_of_mem mem]
    omega

/-- A resource taken before a run and given back after it. -/
theorem borrow {r : ρ} (mem : r ∈ before) (inner : Reserved n (before.erase r) after) :
    Reserved n before (insert r after) where
  subset := Finset.insert_subset mem (inner.subset.trans (Finset.erase_subset r before))
  count := by
    have same : before \ insert r after = before.erase r \ after := by
      ext q
      simp only [Finset.mem_sdiff, Finset.mem_insert, Finset.mem_erase]
      tauto
    rw [same, inner.count]

/-- **Conservation.**  A run leaves the free set as it was exactly when it keeps nothing. -/
theorem same_iff (reserved : Reserved n before after) : after = before ↔ n = 0 := by
  constructor
  · rintro rfl
    rw [← reserved.count, Finset.sdiff_self, Finset.card_empty]
  · rintro rfl
    have none := reserved.count
    rw [Finset.card_eq_zero, Finset.sdiff_eq_empty_iff_subset] at none
    exact Finset.Subset.antisymm reserved.subset none

end Reserved

/-! ## Programs -/

namespace Prog

variable {σ : Type u} {α β : Type v} {ρ κ : Type w} [DecidableEq ρ] {free : σ → Finset ρ}
  {mark : σ → κ}

/-- Every run of `m` that returns keeps `n` resources and leaves `mark` alone. -/
def Reserves (free : σ → Finset ρ) (mark : σ → κ) (n : Nat) (m : Prog σ α) : Prop :=
  ∀ s, m.Keeps s fun _ t => Reserved n (free s) (free t) ∧ mark t = mark s

namespace Reserves

variable {m : Prog σ α} {f : α → Prog σ β} {n k : Nat}

theorem bind (first : Reserves free mark n m) (rest : ∀ a, Reserves free mark k (f a)) :
    Reserves free mark (n + k) (m >>= f) := by
  intro s b u ran
  obtain ⟨a, t, ran₁, ran₂⟩ := bind_returned.1 ran
  obtain ⟨kept, same⟩ := first s a t ran₁
  obtain ⟨kept', same'⟩ := rest a t b u ran₂
  exact ⟨kept.trans kept', same'.trans same⟩

/-- A first part that keeps nothing. -/
theorem skip (first : Reserves free mark 0 m) (rest : ∀ a, Reserves free mark n (f a)) :
    Reserves free mark n (m >>= f) := by
  have both := first.bind rest
  rwa [Nat.zero_add] at both

/-- A last part that keeps nothing. -/
theorem close (first : Reserves free mark n m) (rest : ∀ a, Reserves free mark 0 (f a)) :
    Reserves free mark n (m >>= f) := first.bind rest

theorem of_same (same : ∀ s, m.Keeps s fun _ t => free t = free s ∧ mark t = mark s) :
    Reserves free mark 0 m := by
  intro s a t ran
  obtain ⟨kept, left⟩ := same s a t ran
  exact ⟨.of_same kept, left⟩

theorem pure (a : α) : Reserves free mark 0 (Pure.pure a : Prog σ α) :=
  of_same fun _ => .pure ⟨rfl, rfl⟩

theorem stop (why : Stop) : Reserves free mark n (Prog.stop why : Prog σ α) := by
  intro s a t ran
  cases ran

theorem assert (p : σ → Bool) (why : Stop) :
    Reserves free mark 0 (Prog.assert p why : Prog σ PUnit.{v + 1}) := by
  apply of_same
  intro s a t ran
  rw [assert_apply] at ran
  split at ran
  · cases ran
    exact ⟨rfl, rfl⟩
  · cases ran

theorem ite {c : Prop} [Decidable c] {m m' : Prog σ α} (yes : Reserves free mark n m)
    (no : Reserves free mark n m') : Reserves free mark n (if c then m else m') :=
  fun s => .ite (yes s) (no s)

end Reserves

end Prog

end Buenos.Theory
