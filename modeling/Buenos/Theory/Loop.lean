/-
# Theory.Loop -- loops that need not end

`loop step rounds s` runs a loop for at most `rounds` rounds.  A round goes on with a new state
(`.inl`), leaves the loop with a value (`.inr`), or does not end itself (`none`).  A loop that has
not ended within its rounds gives `none`, so it never ends when every number of rounds gives
`none`.

`loop_mono` makes the number of rounds irrelevant once a loop has ended, and `loop_trap` is the rule
for a loop that does not end.
-/
import Mathlib.Tactic.Common

namespace Buenos.Theory

set_option autoImplicit false

universe u v

variable {σ : Type u} {β : Type v}

def loop (step : σ → Option (σ ⊕ β)) : Nat → σ → Option β
  | 0, _ => none
  | rounds + 1, s =>
      match step s with
      | none => none
      | some (.inl t) => loop step rounds t
      | some (.inr b) => some b

variable {step other : σ → Option (σ ⊕ β)}

theorem loop_stuck {s : σ} (rounds : Nat) (stuck : step s = none) : loop step rounds s = none := by
  cases rounds with
  | zero => rfl
  | succ rounds => simp [loop, stuck]

theorem loop_next {s t : σ} (rounds : Nat) (next : step s = some (.inl t)) :
    loop step (rounds + 1) s = loop step rounds t := by
  simp [loop, next]

theorem loop_exit {s : σ} {b : β} (rounds : Nat) (done : step s = some (.inr b)) :
    loop step (rounds + 1) s = some b := by
  simp [loop, done]

/-- What a loop ends with does not depend on the rounds it is allowed. -/
theorem loop_mono {m n : Nat} {s : σ} {b : β}
    (more : ∀ s r, step s = some r → other s = some r) (le : m ≤ n)
    (ended : loop step m s = some b) : loop other n s = some b := by
  induction m generalizing n s with
  | zero => simp [loop] at ended
  | succ m ih =>
      obtain ⟨n, rfl⟩ : ∃ k, n = k + 1 := ⟨n - 1, by omega⟩
      rw [loop] at ended
      match went : step s with
      | none => simp [went] at ended
      | some (.inl t) =>
          rw [went] at ended
          rw [loop_next n (more s _ went)]
          exact ih (by omega) ended
      | some (.inr c) =>
          rw [went] at ended
          rw [loop_exit n (more s _ went)]
          exact ended

theorem loop_unique {m n : Nat} {s : σ} {a b : β} (first : loop step m s = some a)
    (second : loop step n s = some b) : a = b := by
  have first : loop step (max m n) s = some a :=
    loop_mono (fun _ _ same => same) (Nat.le_max_left m n) first
  have second : loop step (max m n) s = some b :=
    loop_mono (fun _ _ same => same) (Nat.le_max_right m n) second
  rw [first] at second
  exact Option.some.inj second

/-- A loop that no round leaves as long as `I` holds never ends. -/
theorem loop_trap {I : σ → Prop} (round : ∀ s, I s → step s = none ∨ ∃ t, step s = some (.inl t) ∧ I t)
    {s : σ} (start : I s) (n : Nat) : loop step n s = none := by
  induction n generalizing s with
  | zero => rfl
  | succ n ih =>
      rcases round s start with stuck | ⟨t, next, kept⟩
      · exact loop_stuck _ stuck
      · rw [loop_next n next]
        exact ih kept

end Buenos.Theory
