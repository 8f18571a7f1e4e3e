/-
# Theory.LoadLinked -- load linked and store conditional

A memory that several processors share, with the two instructions that build locks.  `ll`
reads a word and links the processor to it; `sc` writes only while the link lasts.  A store by
another processor to the linked word ends the link, and anything else may end it as well
(`lose`): an exception, or a line that leaves a cache.

`Sees` is what makes a lock of the two: while the link lasts, the word is what `ll` read.
-/
import Mathlib.Logic.Function.Basic

namespace Buenos.Theory

set_option autoImplicit false

universe u v w

variable {π : Type u} {α : Type v} {β : Type w}

structure LinkedMemory (π : Type u) (α : Type v) (β : Type w) where
  word : α → β
  /-- The word that a processor is linked to. -/
  link : π → Option α

namespace LinkedMemory

variable [DecidableEq π] (m : LinkedMemory π α β)

def lose (p : π) : LinkedMemory π α β := { m with link := Function.update m.link p none }

def loadLinked (p : π) (a : α) : β × LinkedMemory π α β :=
  (m.word a, { m with link := Function.update m.link p (some a) })

/-- While the link of `p` to `a` lasts, the word is `v`. -/
def Sees (p : π) (a : α) (v : β) : Prop := m.link p = some a → m.word a = v

section

variable {m} {p q : π} {a b : α}

@[simp] theorem word_lose : (m.lose p).word = m.word := rfl

@[simp] theorem word_loadLinked : (m.loadLinked p a).2.word = m.word := rfl

@[simp] theorem link_lose_self : (m.lose p).link p = none := Function.update_self ..

@[simp] theorem link_loadLinked_self : (m.loadLinked p a).2.link p = some a :=
  Function.update_self ..

theorem link_lose_other (other : q ≠ p) : (m.lose p).link q = m.link q :=
  Function.update_of_ne other _ _

theorem link_loadLinked_other (other : q ≠ p) : (m.loadLinked p b).2.link q = m.link q :=
  Function.update_of_ne other _ _

theorem sees_loadLinked : (m.loadLinked p a).2.Sees p a (m.word a) := fun _ => rfl

end

variable [DecidableEq α]

/-- A store ends the links of the other processors to this word. -/
def store (p : π) (a : α) (v : β) : LinkedMemory π α β where
  word := Function.update m.word a v
  link q := if q ≠ p ∧ m.link q = some a then none else m.link q

/-- `sc`, and whether it wrote. -/
def storeConditional (p : π) (a : α) (v : β) : Bool × LinkedMemory π α β :=
  if m.link p = some a then (true, (m.store p a v).lose p) else (false, m.lose p)

variable {m} {p q : π} {a b : α} {v w : β}

@[simp] theorem word_store : (m.store p a v).word = Function.update m.word a v := rfl

theorem storeConditional_linked (linked : m.link p = some a) :
    m.storeConditional p a v = (true, (m.store p a v).lose p) := if_pos linked

theorem storeConditional_unlinked (lost : m.link p ≠ some a) :
    m.storeConditional p a v = (false, m.lose p) := if_neg lost

/-- A link to one word is not a link to another, so a store elsewhere keeps it. -/
theorem link_store_other (other : b ≠ a) : (m.store p b v).link q = some a ↔ m.link q = some a := by
  rw [store]
  constructor
  · intro linked
    dsimp only at linked
    split at linked
    · cases linked
    · exact linked
  · intro linked
    refine (if_neg ?_).trans linked
    rintro ⟨-, here⟩
    exact other (Option.some.inj (here.symm.trans linked))

namespace Sees

/-- Another processor's store keeps the promise: it ends the link if it changes the word. -/
theorem store (sees : m.Sees q a v) (other : q ≠ p) : (m.store p b w).Sees q a v := by
  intro linked
  by_cases same : b = a
  · subst same
    dsimp only [LinkedMemory.store] at linked
    split at linked
    · cases linked
    · rename_i kept
      exact absurd ⟨other, linked⟩ kept
  · rw [word_store, Function.update_of_ne (Ne.symm same)]
    exact sees ((link_store_other same).1 linked)

omit [DecidableEq α] in
theorem lose (sees : m.Sees q a v) : (m.lose p).Sees q a v := by
  intro linked
  by_cases same : q = p
  · rw [same, link_lose_self] at linked
    cases linked
  · exact sees (by rwa [link_lose_other same] at linked)

omit [DecidableEq α] in
theorem loadLinked (sees : m.Sees q a v) (other : q ≠ p) : (m.loadLinked p b).2.Sees q a v :=
  fun linked => sees (by rwa [link_loadLinked_other other] at linked)

theorem storeConditional (sees : m.Sees q a v) (other : q ≠ p) :
    (m.storeConditional p b w).2.Sees q a v := by
  by_cases linked : m.link p = some b
  · rw [storeConditional_linked linked]
    exact (sees.store other).lose
  · rw [storeConditional_unlinked linked]
    exact sees.lose

end Sees

end LinkedMemory

end Buenos.Theory
