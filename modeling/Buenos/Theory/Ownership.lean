/-
# Theory.Ownership -- exact accounts of disjoint owners

Every index owns a list of cells, and a mark says that a cell is taken.  The account is
exact when the marked cells are the reserved ones and the owned ones, and no cell has two
reasons to be marked.  Handing unmarked cells to an index that owns nothing keeps the
account exact, and so does taking back all that an index owns.

`Held` is the weaker account of a system that can lose cells: what is owned is marked, and
a cell that no one owns may stay marked.
-/
import Mathlib.Data.List.Nodup
import Mathlib.Logic.Function.Basic

namespace Buenos.Theory

set_option autoImplicit false

universe u v

variable {ι : Type u} {α : Type v}

structure Exact (reserved marked : α → Prop) (owns : ι → List α) : Prop where
  nodup : ∀ i, (owns i).Nodup
  apart : ∀ i k, i ≠ k → List.Disjoint (owns i) (owns k)
  outside : ∀ i, ∀ a ∈ owns i, ¬ reserved a
  marked : ∀ a, marked a ↔ reserved a ∨ ∃ i, a ∈ owns i

namespace Exact

variable {reserved marked marked' : α → Prop} {owns : ι → List α}

theorem owner_unique (exact : Exact reserved marked owns) {i k : ι} {a : α} (first : a ∈ owns i)
    (second : a ∈ owns k) : i = k := by
  by_contra ne
  exact exact.apart i k ne first second

theorem is_marked (exact : Exact reserved marked owns) {i : ι} {a : α} (mem : a ∈ owns i) :
    marked a :=
  (exact.marked a).2 (.inr ⟨i, mem⟩)

/-- What is not marked belongs to no one. -/
theorem unowned (exact : Exact reserved marked owns) {a : α} (clear : ¬ marked a) (i : ι) :
    a ∉ owns i :=
  fun mem => clear (exact.is_marked mem)

theorem congr (exact : Exact reserved marked owns) (same : ∀ a, marked' a ↔ marked a) :
    Exact reserved marked' owns where
  nodup := exact.nodup
  apart := exact.apart
  outside := exact.outside
  marked := fun a => (same a).trans (exact.marked a)

variable [DecidableEq ι]

/-- **Giving.**  Unmarked cells go to an index that owned nothing. -/
theorem give (exact : Exact reserved marked owns) {i : ι} {new : List α} (empty : owns i = [])
    (nodup : new.Nodup) (fresh : ∀ a ∈ new, ¬ marked a)
    (marks : ∀ a, marked' a ↔ marked a ∨ a ∈ new) :
    Exact reserved marked' (Function.update owns i new) where
  nodup := by
    intro k
    by_cases same : k = i
    · rw [same, Function.update_self]
      exact nodup
    · rw [Function.update_of_ne same]
      exact exact.nodup k
  apart := by
    intro k l ne
    by_cases first : k = i
    · rw [first, Function.update_self, Function.update_of_ne (fun h => ne (by rw [first, h]))]
      exact fun a inNew old => exact.unowned (fresh a inNew) l old
    · rw [Function.update_of_ne first]
      by_cases second : l = i
      · rw [second, Function.update_self]
        exact fun a old inNew => exact.unowned (fresh a inNew) k old
      · rw [Function.update_of_ne second]
        exact exact.apart k l ne
  outside := by
    intro k a mem
    by_cases same : k = i
    · rw [same, Function.update_self] at mem
      exact fun system => fresh a mem ((exact.marked a).2 (.inl system))
    · rw [Function.update_of_ne same] at mem
      exact exact.outside k a mem
  marked := by
    intro a
    rw [marks, exact.marked, or_assoc]
    refine or_congr_right ⟨?_, ?_⟩
    · rintro (⟨k, mem⟩ | mem)
      · have ne : k ≠ i := fun h => by rw [h, empty] at mem; cases mem
        exact ⟨k, by rwa [Function.update_of_ne ne]⟩
      · exact ⟨i, by rwa [Function.update_self]⟩
    · rintro ⟨k, mem⟩
      by_cases same : k = i
      · rw [same, Function.update_self] at mem
        exact .inr mem
      · rw [Function.update_of_ne same] at mem
        exact .inl ⟨k, mem⟩

/-- **Taking back.**  An index gives up all it owns. -/
theorem drop (exact : Exact reserved marked owns) (i : ι)
    (marks : ∀ a, marked' a ↔ marked a ∧ a ∉ owns i) :
    Exact reserved marked' (Function.update owns i []) where
  nodup := by
    intro k
    by_cases same : k = i
    · rw [same, Function.update_self]
      exact List.nodup_nil
    · rw [Function.update_of_ne same]
      exact exact.nodup k
  apart := by
    intro k l ne
    by_cases first : k = i
    · rw [first, Function.update_self]
      exact List.disjoint_nil_left _
    · rw [Function.update_of_ne first]
      by_cases second : l = i
      · rw [second, Function.update_self]
        exact List.disjoint_nil_right _
      · rw [Function.update_of_ne second]
        exact exact.apart k l ne
  outside := by
    intro k a mem
    by_cases same : k = i
    · rw [same, Function.update_self] at mem
      cases mem
    · rw [Function.update_of_ne same] at mem
      exact exact.outside k a mem
  marked := by
    intro a
    rw [marks, exact.marked]
    constructor
    · rintro ⟨system | ⟨k, mem⟩, notMine⟩
      · exact .inl system
      · have ne : k ≠ i := fun h => notMine (h ▸ mem)
        exact .inr ⟨k, by rwa [Function.update_of_ne ne]⟩
    · rintro (system | ⟨k, mem⟩)
      · exact ⟨.inl system, fun mine => exact.outside i a mine system⟩
      · by_cases same : k = i
        · rw [same, Function.update_self] at mem
          cases mem
        · rw [Function.update_of_ne same] at mem
          exact ⟨.inr ⟨k, mem⟩, fun mine => same (exact.owner_unique mem mine)⟩

/-- **Exchanging.**  An index gives up all it owns, and gets cells that were its own or were
not marked. -/
theorem exchange (exact : Exact reserved marked owns) (i : ι) {new : List α} (nodup : new.Nodup)
    (fresh : ∀ a ∈ new, marked a → a ∈ owns i)
    (marks : ∀ a, marked' a ↔ (marked a ∧ a ∉ owns i) ∨ a ∈ new) :
    Exact reserved marked' (Function.update owns i new) := by
  have dropped : Exact reserved (fun a => marked a ∧ a ∉ owns i) (Function.update owns i []) :=
    exact.drop i fun _ => Iff.rfl
  have given := dropped.give (Function.update_self i [] owns) nodup
    (fun a mem old => old.2 (fresh a mem old.1)) marks
  rwa [Function.update_idem] at given

end Exact

/-! ## Accounts that may leak -/

/-- What is reserved or owned is marked, but a marked cell may belong to no one. -/
structure Held (reserved marked : α → Prop) (owns : ι → List α) : Prop where
  nodup : ∀ i, (owns i).Nodup
  apart : ∀ i k, i ≠ k → List.Disjoint (owns i) (owns k)
  outside : ∀ i, ∀ a ∈ owns i, ¬ reserved a
  reserved : ∀ a, reserved a → marked a
  owned : ∀ i, ∀ a ∈ owns i, marked a

namespace Held

variable {reserved marked marked' : α → Prop} {owns : ι → List α}

theorem owner_unique (held : Held reserved marked owns) {i k : ι} {a : α} (first : a ∈ owns i)
    (second : a ∈ owns k) : i = k := by
  by_contra ne
  exact held.apart i k ne first second

theorem congr (held : Held reserved marked owns) (same : ∀ a, marked' a ↔ marked a) :
    Held reserved marked' owns where
  nodup := held.nodup
  apart := held.apart
  outside := held.outside
  reserved := fun a mem => (same a).2 (held.reserved a mem)
  owned := fun i a mem => (same a).2 (held.owned i a mem)

variable [DecidableEq ι]

/-- **Exchanging.**  An index gives up all it owns, and gets cells that were its own or were
not marked. -/
theorem exchange (held : Held reserved marked owns) (i : ι) {new : List α} (nodup : new.Nodup)
    (fresh : ∀ a ∈ new, marked a → a ∈ owns i)
    (kept : ∀ a, marked a → a ∉ owns i → marked' a) (taken : ∀ a ∈ new, marked' a) :
    Held reserved marked' (Function.update owns i new) where
  nodup := by
    intro k
    by_cases same : k = i
    · rw [same, Function.update_self]
      exact nodup
    · rw [Function.update_of_ne same]
      exact held.nodup k
  apart := by
    have other : ∀ k, k ≠ i → List.Disjoint (owns k) new := fun k ne a old inNew =>
      ne (held.owner_unique old (fresh a inNew (held.owned k a old)))
    intro k l ne
    by_cases first : k = i
    · rw [first, Function.update_self, Function.update_of_ne (fun h => ne (by rw [first, h]))]
      exact fun a inNew old => other l (fun h => ne (by rw [first, h])) old inNew
    · rw [Function.update_of_ne first]
      by_cases second : l = i
      · rw [second, Function.update_self]
        exact other k first
      · rw [Function.update_of_ne second]
        exact held.apart k l ne
  outside := by
    intro k a mem
    by_cases same : k = i
    · rw [same, Function.update_self] at mem
      exact fun system => held.outside i a (fresh a mem (held.reserved a system)) system
    · rw [Function.update_of_ne same] at mem
      exact held.outside k a mem
  reserved := fun a system =>
    kept a (held.reserved a system) fun mine => held.outside i a mine system
  owned := by
    intro k a mem
    by_cases same : k = i
    · rw [same, Function.update_self] at mem
      exact taken a mem
    · rw [Function.update_of_ne same] at mem
      exact kept a (held.owned k a mem) fun mine => same (held.owner_unique mem mine)

end Held

end Buenos.Theory
