/-
# Theory.Refine -- one system refines another

Every action of the lower system shows as a list of actions of the upper one, most often
none or one.  `Refines` is a forward simulation between the two; then what a run of the lower
system shows is a run of the upper one (`Refines.exec`), and every state that the lower system
reaches is related to one that the upper system reaches.
-/
import Buenos.Theory.Run

namespace Buenos.Theory

set_option autoImplicit false

universe u v w x

namespace System

variable {σ : Type u} {α : Type v} {τ : Type w} {β : Type x}

theorem exec_append (N : System τ β) (o : τ) (as bs : List β) :
    N.exec o (as ++ bs) = (N.exec o as).bind fun o' => N.exec o' bs := by
  induction as generalizing o with
  | nil => rfl
  | cons a as ih =>
      rw [List.cons_append, System.exec, System.exec, Option.bind_assoc]
      exact congrArg _ (funext ih)

/-- What a run shows. -/
def shown (M : System σ α) (view : σ → α → List β) : σ → List α → List β
  | _, [] => []
  | s, a :: as => view s a ++ (M.step s a).elim [] fun t => shown M view t as

/-- A forward simulation. -/
structure Refines (M : System σ α) (N : System τ β) (view : σ → α → List β)
    (rel : σ → τ → Prop) : Prop where
  start : ∀ s, M.initial s → ∃ o, N.initial o ∧ rel s o
  step : ∀ s t a o, rel s o → M.step s a = some t →
    ∃ o', N.exec o (view s a) = some o' ∧ rel t o'

namespace Refines

variable {M : System σ α} {N : System τ β} {view : σ → α → List β} {rel : σ → τ → Prop}

/-- **What a run shows is a run.** -/
theorem exec (refines : Refines M N view rel) {s t : σ} {o : τ} {as : List α} (related : rel s o)
    (ran : M.exec s as = some t) :
    ∃ o', N.exec o (M.shown view s as) = some o' ∧ rel t o' := by
  induction as generalizing s o with
  | nil =>
      simp only [System.exec, Option.some.injEq] at ran
      exact ⟨o, rfl, ran ▸ related⟩
  | cons a as ih =>
      simp only [System.exec, Option.bind_eq_some_iff] at ran
      obtain ⟨u, taken, rest⟩ := ran
      obtain ⟨o₁, first, related⟩ := refines.step s u a o related taken
      obtain ⟨o₂, second, related⟩ := ih related rest
      refine ⟨o₂, ?_, related⟩
      rw [shown, taken, exec_append, first]
      exact second

theorem reachable (refines : Refines M N view rel) {s : σ} (reached : M.Reachable s) :
    ∃ o, N.Reachable o ∧ rel s o :=
  Reachable.invariant (I := fun s => ∃ o, N.Reachable o ∧ rel s o)
    (fun s first => by
      obtain ⟨o, initial, related⟩ := refines.start s first
      exact ⟨o, .start initial, related⟩)
    (fun s a t => by
      rintro ⟨o, reached, related⟩ taken
      obtain ⟨o', ran, related⟩ := refines.step s t a o related taken
      exact ⟨o', reached.exec ran, related⟩)
    reached

end Refines

end System

end Buenos.Theory
