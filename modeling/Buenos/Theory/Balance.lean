/-
# Theory.Balance -- what a program adds to a count

A count reads the state in a commutative group: the value of a lock, the number of
operations in progress, or several of these side by side.  `Adds count m d` says that
every run of `m` that returns `a` adds `d a` to the count, and `Balanced count m` that it
adds nothing.

The rules follow the program.  `Adds.bind` charges the first part to what is left for the
second, `Adds.skip` passes over a balanced part, and every early return is then a goal of
its own: what it still has to give back.
-/
import Buenos.Theory.Prog
import Mathlib.Algebra.Group.Basic

namespace Buenos.Theory.Prog

set_option autoImplicit false

universe u v w

variable {σ : Type u} {α β : Type v} {G : Type w} [AddCommGroup G] {count : σ → G}

/-- A run that returns `a` adds `d a` to the count. -/
def Adds (count : σ → G) (m : Prog σ α) (d : α → G) : Prop :=
  ∀ s, m.Keeps s fun a t => count t = count s + d a

/-- A run that returns leaves the count as it was. -/
abbrev Balanced (count : σ → G) (m : Prog σ α) : Prop := Adds count m fun _ => 0

theorem Balanced.same {m : Prog σ α} (balanced : Balanced count m) (s : σ) :
    m.Keeps s fun _ t => count t = count s := by
  intro a t ran
  rw [balanced s a t ran, add_zero]

theorem balanced_of_same {m : Prog σ α} (same : ∀ s, m.Keeps s fun _ t => count t = count s) :
    Balanced count m := by
  intro s a t ran
  rw [same s a t ran, add_zero]

namespace Adds

variable {m : Prog σ α} {f : α → Prog σ β} {d d' : α → G} {e : β → G}

theorem congr (adds : Adds count m d) (same : ∀ a, d a = d' a) : Adds count m d' := by
  intro s a t ran
  rw [adds s a t ran, same]

theorem bind (first : Adds count m d) (rest : ∀ a, Adds count (f a) fun b => e b - d a) :
    Adds count (m >>= f) e := by
  intro s b u ran
  obtain ⟨a, t, ran₁, ran₂⟩ := bind_returned.1 ran
  rw [rest a t b u ran₂, first s a t ran₁, add_assoc, add_sub_cancel]

/-- The rest of a program after a part that is balanced. -/
theorem skip (first : Balanced count m) (rest : ∀ a, Adds count (f a) e) :
    Adds count (m >>= f) e :=
  first.bind fun a => (rest a).congr fun _ => (sub_zero _).symm

theorem pure {a : α} (nothing : d a = 0) : Adds count (Pure.pure a : Prog σ α) d := by
  intro s
  exact .pure (by rw [nothing, add_zero])

theorem stop (why : Stop) : Adds count (Prog.stop why) d := by
  intro s a t ran
  cases ran

theorem ite {c : Prop} [Decidable c] {m n : Prog σ α} (yes : Adds count m d)
    (no : Adds count n d) : Adds count (if c then m else n) d := fun s => .ite (yes s) (no s)

/-- A balanced part that succeeds or fails, and what follows in each case. -/
theorem branch {β : Type} {m : Prog σ Bool} {yes no : Prog σ β} {e : β → G}
    (first : Balanced count m) (success : Adds count yes e) (failure : Adds count no e) :
    Adds count (do let ok ← m; if ok then yes else no) e :=
  first.skip fun _ => .ite success failure

/-- A result made of the program's own. -/
theorem map {g : α → β} (adds : Adds count m fun a => e (g a)) :
    Adds count (do let a ← m; Pure.pure (g a)) e :=
  adds.bind fun _ => .pure (sub_self _)

theorem gets (f : σ → α) : Balanced count (Prog.gets f) := by
  apply balanced_of_same
  intro s a t ran
  cases ran
  rfl

theorem assert (p : σ → Bool) (why : Stop) :
    Balanced count (Prog.assert p why : Prog σ PUnit.{v + 1}) := by
  apply balanced_of_same
  intro s a t ran
  rw [assert_apply] at ran
  split at ran
  · cases ran
    rfl
  · cases ran

theorem modify {f : σ → σ} (same : ∀ s, count (f s) = count s) :
    Balanced count (Prog.modify f : Prog σ PUnit.{v + 1}) := by
  apply balanced_of_same
  intro s a t ran
  cases ran
  exact same s

/-- A part of the state that the count does not read, or a part in which it is balanced. -/
theorem zoom {ρ : Type u} {get : σ → ρ} {put : ρ → σ → σ} {m : Prog ρ α}
    (same : ∀ s, m.Keeps (get s) fun _ r => count (put r s) = count s) :
    Balanced count (Prog.zoom get put m) :=
  balanced_of_same fun s => .zoom (same s)

end Adds

end Buenos.Theory.Prog
