/-
# Theory.Chain -- linked lists that end in a null pointer

`Chain next start l` says that following the links from `start` visits the members `l`, in
order, and then ends.  `lastFrom` is the loop that walks to the last member.
-/
import Mathlib.Data.List.Nodup
import Mathlib.Logic.Function.Basic
import Mathlib.Tactic.Common

namespace Buenos.Theory

set_option autoImplicit false

universe u

variable {α : Type u}

def Chain (next : α → Option α) : Option α → List α → Prop
  | start, [] => start = none
  | start, a :: l => start = some a ∧ Chain next (next a) l

/-- Follow the links to a member that has none, for so many turns. -/
def lastFrom (next : α → Option α) : Nat → α → Option α
  | 0, _ => none
  | turns + 1, a =>
      match next a with
      | none => some a
      | some b => lastFrom next turns b

namespace Chain

variable {next next' : α → Option α} {start : Option α} {a p : α} {l : List α}

/-- **Frame.**  Only the links of the members count. -/
theorem congr (chain : Chain next start l) (same : ∀ b ∈ l, next' b = next b) :
    Chain next' start l := by
  induction l generalizing start with
  | nil => exact chain
  | cons b l ih =>
      obtain ⟨rfl, rest⟩ := chain
      refine ⟨rfl, ?_⟩
      rw [same b List.mem_cons_self]
      exact ih rest fun c member => same c (List.mem_cons_of_mem _ member)

theorem start_eq (chain : Chain next start l) : start = l.head? := by
  cases l with
  | nil => exact chain
  | cons b l => exact chain.1

/-- The walk finds the last member. -/
theorem lastFrom_eq {turns : Nat} (chain : Chain next (some a) (l ++ [p]))
    (enough : l.length < turns) : lastFrom next turns a = some p := by
  induction l generalizing a turns with
  | nil =>
      obtain ⟨turns, rfl⟩ : ∃ n, turns = n + 1 := ⟨turns - 1, by simp at enough; omega⟩
      obtain ⟨same, last⟩ := chain
      have here : a = p := Option.some.inj same
      subst here
      have stop : next a = none := last
      rw [lastFrom, stop]
  | cons b l ih =>
      obtain ⟨turns, rfl⟩ : ∃ n, turns = n + 1 := ⟨turns - 1, by simp at enough; omega⟩
      obtain ⟨same, rest⟩ := chain
      have here : a = b := Option.some.inj same
      subst here
      cases link : next a with
      | none =>
          rw [link] at rest
          have := rest.start_eq
          cases l <;> simp at this
      | some c =>
          rw [link] at rest
          rw [lastFrom, link]
          exact ih rest (by simp at enough; omega)

variable [DecidableEq α]

/-- Append a member behind the last one. -/
theorem snoc (chain : Chain next start (l ++ [p])) (nodup : (l ++ [p]).Nodup) (fresh : a ∉ l ++ [p])
    (last : next a = none) : Chain (Function.update next p (some a)) start (l ++ [p] ++ [a]) := by
  induction l generalizing start with
  | nil =>
      obtain ⟨rfl, -⟩ := chain
      have apart : a ≠ p := by simpa using fresh
      refine ⟨rfl, Function.update_self .., ?_⟩
      rw [Function.update_of_ne apart]
      exact last
  | cons b l ih =>
      obtain ⟨rfl, rest⟩ := chain
      obtain ⟨first, later⟩ := List.nodup_cons.1 nodup
      have apart : b ≠ p := by
        rintro rfl
        exact first (by simp)
      refine ⟨rfl, ?_⟩
      rw [Function.update_of_ne apart]
      exact ih rest later fun member => fresh (List.mem_cons_of_mem _ member)

/-- Take the first member out. -/
theorem behead (chain : Chain next start (a :: l)) (nodup : (a :: l).Nodup) :
    Chain (Function.update next a none) (next a) l := by
  refine chain.2.congr fun b member => ?_
  have apart : b ≠ a := by
    rintro rfl
    exact (List.nodup_cons.1 nodup).1 member
  rw [Function.update_of_ne apart]

end Chain

end Buenos.Theory
