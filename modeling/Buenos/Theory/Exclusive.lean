/-
# Theory.Exclusive -- resources with one owner each

`Exclusive owns` says that every resource has exactly one owner.  The rules cover
the steps a resource manager takes: nothing changes hands, or one resource moves
from its owner to another.
-/
import Mathlib.Tactic.Common

namespace Buenos.Theory

set_option autoImplicit false

universe u v

variable {ω : Type u} {ρ : Type v} {owns owns' : ω → ρ → Prop}

/-- Every resource has exactly one owner. -/
def Exclusive (owns : ω → ρ → Prop) : Prop :=
  ∀ r, ∃ o, owns o r ∧ ∀ o', owns o' r → o' = o

namespace Exclusive

theorem unique (one : Exclusive owns) {o o' : ω} {r : ρ} (first : owns o r) (second : owns o' r) :
    o = o' := by
  obtain ⟨owner, -, only⟩ := one r
  rw [only o first, only o' second]

theorem congr (one : Exclusive owns) (same : ∀ o r, owns' o r ↔ owns o r) : Exclusive owns' := by
  intro r
  obtain ⟨o, has, only⟩ := one r
  exact ⟨o, (same o r).2 has, fun o' has' => only o' ((same o' r).1 has')⟩

/-- One resource gets a new owner, and the others keep theirs. -/
theorem move (one : Exclusive owns) (r : ρ) (new : ω) (here : ∀ o, owns' o r ↔ o = new)
    (elsewhere : ∀ o r', r' ≠ r → (owns' o r' ↔ owns o r')) : Exclusive owns' := by
  intro r'
  by_cases same : r' = r
  · subst same
    exact ⟨new, (here new).2 rfl, fun o has => (here o).1 has⟩
  · obtain ⟨o, has, only⟩ := one r'
    exact ⟨o, (elsewhere o r' same).2 has, fun o' has' => only o' ((elsewhere o' r' same).1 has')⟩

end Exclusive

end Buenos.Theory
