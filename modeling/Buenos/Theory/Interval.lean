/-
# Theory.Interval -- blocks that partition an interval

A `Block` is a run of addresses.  `Partition lo hi blocks` says that the blocks, in any
order, lie in `[lo, hi)`, do not overlap and leave nothing out.  Cutting a block in two and
joining two neighbours keep a partition, and so does any change of the order.

Blocks in the order of their addresses with something between any two are `Gapped`; a
partition that is gapped is one block.
-/
import Mathlib.Data.List.Pairwise
import Mathlib.Data.List.Perm.Basic
import Mathlib.Tactic.Common

namespace Buenos.Theory

set_option autoImplicit false

structure Block where
  addr : Nat
  size : Nat
  deriving DecidableEq

namespace Block

/-- The first address behind a block. -/
def stop (b : Block) : Nat := b.addr + b.size

def Apart (a b : Block) : Prop := a.stop ≤ b.addr ∨ b.stop ≤ a.addr

theorem Apart.symm {a b : Block} (apart : a.Apart b) : b.Apart a := Or.symm apart

instance : Std.Symm Block.Apart := ⟨fun _ _ apart => apart.symm⟩

end Block

structure Partition (lo hi : Nat) (blocks : List Block) : Prop where
  inside : ∀ b ∈ blocks, lo ≤ b.addr ∧ b.stop ≤ hi
  filled : ∀ b ∈ blocks, 0 < b.size
  apart : blocks.Pairwise Block.Apart
  cover : ∀ x, lo ≤ x → x < hi → ∃ b ∈ blocks, b.addr ≤ x ∧ x < b.stop

def Gapped (blocks : List Block) : Prop := blocks.Pairwise fun a b => a.stop < b.addr

variable {lo hi : Nat}

namespace Partition

theorem perm {blocks blocks' : List Block} (part : Partition lo hi blocks)
    (perm : blocks.Perm blocks') : Partition lo hi blocks' where
  inside b member := part.inside b (perm.mem_iff.2 member)
  filled b member := part.filled b (perm.mem_iff.2 member)
  apart := (perm.pairwise_iff Block.Apart.symm).1 part.apart
  cover x above below := by
    obtain ⟨b, member, within⟩ := part.cover x above below
    exact ⟨b, perm.mem_iff.1 member, within⟩

variable {a m n : Nat} {rest : List Block}

/-- **Cut a block in two.** -/
theorem split (part : Partition lo hi (⟨a, m + n⟩ :: rest)) (left : 0 < m) (right : 0 < n) :
    Partition lo hi (⟨a, m⟩ :: ⟨a + m, n⟩ :: rest) := by
  obtain ⟨others, sorted⟩ := List.pairwise_cons.1 part.apart
  have within := part.inside _ List.mem_cons_self
  simp only [Block.stop] at within
  refine ⟨?_, ?_, ?_, ?_⟩
  · simp only [List.forall_mem_cons, Block.stop]
    exact ⟨by omega, by omega, fun b member => part.inside b (List.mem_cons_of_mem _ member)⟩
  · simp only [List.forall_mem_cons]
    exact ⟨left, right, fun b member => part.filled b (List.mem_cons_of_mem _ member)⟩
  · simp only [List.pairwise_cons, List.forall_mem_cons]
    refine ⟨⟨Or.inl (Nat.le_refl _), ?_⟩, ?_, sorted⟩
    · intro b member
      have apart := others b member
      simp only [Block.Apart, Block.stop] at apart ⊢
      omega
    · intro b member
      have apart := others b member
      simp only [Block.Apart, Block.stop] at apart ⊢
      omega
  · intro x above below
    obtain ⟨b, member, within⟩ := part.cover x above below
    rcases List.mem_cons.1 member with rfl | member
    · simp only [Block.stop] at within
      by_cases first : x < a + m
      · exact ⟨⟨a, m⟩, by simp, within.1, first⟩
      · exact ⟨⟨a + m, n⟩, by simp, by simpa using first, by simp only [Block.stop]; omega⟩
    · exact ⟨b, by simp [member], within⟩

/-- **Join two neighbours.** -/
theorem join (part : Partition lo hi (⟨a, m⟩ :: ⟨a + m, n⟩ :: rest)) :
    Partition lo hi (⟨a, m + n⟩ :: rest) := by
  obtain ⟨first, later⟩ := List.pairwise_cons.1 part.apart
  obtain ⟨second, sorted⟩ := List.pairwise_cons.1 later
  have inside := part.inside
  have filled := part.filled
  simp only [List.forall_mem_cons, Block.stop] at inside filled
  refine ⟨?_, ?_, ?_, ?_⟩
  · simp only [List.forall_mem_cons, Block.stop]
    exact ⟨by omega, inside.2.2⟩
  · simp only [List.forall_mem_cons]
    exact ⟨by omega, filled.2.2⟩
  · refine List.pairwise_cons.2 ⟨?_, sorted⟩
    intro b member
    have one := first b (List.mem_cons_of_mem _ member)
    have two := second b member
    have some_ := filled.2.2 b member
    simp only [Block.Apart, Block.stop] at one two ⊢
    omega
  · intro x above below
    obtain ⟨b, member, within⟩ := part.cover x above below
    simp only [List.mem_cons] at member
    rcases member with rfl | rfl | member
    · exact ⟨_, List.mem_cons_self, within.1, by simp only [Block.stop] at within ⊢; omega⟩
    · exact ⟨_, List.mem_cons_self, by simp only at within ⊢; omega,
        by simp only [Block.stop] at within ⊢; omega⟩
    · exact ⟨b, List.mem_cons_of_mem _ member, within⟩

/-- **A gapped partition is one block.** -/
theorem single {blocks : List Block} (part : Partition lo hi blocks) (gapped : Gapped blocks)
    (some_ : lo < hi) : blocks = [⟨lo, hi - lo⟩] := by
  cases blocks with
  | nil =>
      obtain ⟨b, member, -⟩ := part.cover lo (Nat.le_refl _) some_
      cases member
  | cons first rest =>
      obtain ⟨later, -⟩ := List.pairwise_cons.1 gapped
      have inside := part.inside first List.mem_cons_self
      have filled := part.filled first List.mem_cons_self
      have start : first.addr = lo := by
        obtain ⟨b, member, within⟩ := part.cover lo (Nat.le_refl _) some_
        rcases List.mem_cons.1 member with rfl | member
        · exact Nat.le_antisymm within.1 inside.1
        · have gap := later b member
          simp only [Block.stop] at gap
          omega
      have stop : first.stop = hi := by
        by_contra short
        obtain ⟨b, member, within⟩ :=
          part.cover first.stop (by simp only [Block.stop]; omega) (by omega)
        rcases List.mem_cons.1 member with rfl | member
        · omega
        · have gap := later b member
          omega
      have last : rest = [] := by
        refine List.eq_nil_iff_forall_not_mem.2 ?_
        intro b member
        have gap := later b member
        have within := part.inside b (List.mem_cons_of_mem _ member)
        simp only [Block.stop] at within stop gap
        omega
      rw [last, ← start]
      simp only [Block.stop] at stop
      have size : first.size = hi - first.addr := by omega
      rw [← size]

end Partition

theorem Gapped.length_le {blocks : List Block} (gapped : Gapped blocks)
    (inside : ∀ b ∈ blocks, lo ≤ b.addr ∧ b.stop ≤ hi) : blocks.length ≤ hi - lo + 1 := by
  induction blocks generalizing lo with
  | nil => exact Nat.zero_le _
  | cons first rest ih =>
      obtain ⟨later, sorted⟩ := List.pairwise_cons.1 gapped
      have within := inside first List.mem_cons_self
      cases rest with
      | nil => simp
      | cons second rest =>
          have gap := later second List.mem_cons_self
          have next := inside second (by simp)
          simp only [Block.stop] at gap next within
          have shorter : (second :: rest).length ≤ hi - (lo + 1) + 1 := by
            refine ih sorted ?_
            intro b member
            have gap := later b member
            have next := inside b (List.mem_cons_of_mem _ member)
            simp only [Block.stop] at gap
            exact ⟨by omega, next.2⟩
          simp only [List.length_cons] at shorter ⊢
          omega

end Buenos.Theory
