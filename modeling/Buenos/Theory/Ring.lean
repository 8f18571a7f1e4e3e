/-
# Theory.Ring -- ring buffers

A ring buffer is an array of `cap` slots, the index of its first member and the number of
its members.  The number is an integer, as the C variable is: nothing but its users keeps it
between zero and the capacity, which is `Fits`.

What a fitting buffer holds is a list, `contents`.  Members are put in behind the last one
(`contents_push`) and taken out at the front (`contents_pop`).
-/
import Mathlib.Data.Nat.ModEq
import Mathlib.Logic.Function.Basic

namespace Buenos.Theory

set_option autoImplicit false

universe u

structure RingBuffer (α : Type u) where
  slots : Nat → α
  head : Nat
  count : Int

namespace RingBuffer

variable {α : Type u} {cap : Nat} {r : RingBuffer α}

def contents (cap : Nat) (r : RingBuffer α) : List α :=
  (List.range r.count.toNat).map fun k => r.slots ((r.head + k) % cap)

/-- Fill the slot behind the last member. -/
def push (cap : Nat) (r : RingBuffer α) (a : α) : RingBuffer α :=
  { r with
    slots := Function.update r.slots ((r.head + r.count.toNat) % cap) a
    count := r.count + 1 }

def front (r : RingBuffer α) : α := r.slots r.head

def pop (cap : Nat) (r : RingBuffer α) : RingBuffer α :=
  { r with head := (r.head + 1) % cap, count := r.count - 1 }

structure Fits (cap : Nat) (r : RingBuffer α) : Prop where
  head : r.head < cap
  nonneg : 0 ≤ r.count
  count : r.count ≤ cap

theorem length_contents (r : RingBuffer α) : (r.contents cap).length = r.count.toNat := by
  simp [contents]

/-- The slots of the members and the one behind them are different. -/
theorem slot_ne {head i n : Nat} (before : i < n) (room : n < cap) :
    (head + i) % cap ≠ (head + n) % cap := by
  intro same
  have cancelled : i % cap = n % cap := Nat.ModEq.add_left_cancel' head same
  rw [Nat.mod_eq_of_lt (before.trans room), Nat.mod_eq_of_lt room] at cancelled
  exact Nat.ne_of_lt before cancelled

theorem Fits.push (fits : r.Fits cap) (room : r.count < cap) (a : α) : (r.push cap a).Fits cap where
  head := fits.head
  nonneg := by
    have := fits.nonneg
    simp only [RingBuffer.push]
    omega
  count := by
    simp only [RingBuffer.push]
    omega

theorem Fits.pop (fits : r.Fits cap) (some : 0 < r.count) : (r.pop cap).Fits cap where
  head := Nat.mod_lt _ (by have := fits.head; omega)
  nonneg := by
    simp only [RingBuffer.pop]
    omega
  count := by
    have := fits.count
    simp only [RingBuffer.pop]
    omega

/-- **Putting in.**  With room, the new member comes last and the others stay. -/
theorem contents_push (fits : r.Fits cap) (room : r.count < cap) (a : α) :
    (r.push cap a).contents cap = r.contents cap ++ [a] := by
  have nonneg := fits.nonneg
  have count : (r.count + 1).toNat = r.count.toNat + 1 := by omega
  simp only [contents, RingBuffer.push, count, List.range_succ, List.map_append, List.map_cons,
    List.map_nil, Function.update_self]
  congr 1
  apply List.map_congr_left
  intro k member
  have before := List.mem_range.1 member
  exact Function.update_of_ne (slot_ne before (by omega)) _ _

/-- **Taking out.**  The first member leaves and the others stay. -/
theorem contents_pop (fits : r.Fits cap) (some : 0 < r.count) :
    r.contents cap = r.front :: (r.pop cap).contents cap := by
  obtain ⟨n, count⟩ : ∃ n, r.count.toNat = n + 1 := ⟨r.count.toNat - 1, by omega⟩
  have rest : (r.count - 1).toNat = n := by omega
  simp only [contents, count, RingBuffer.pop, rest, List.range_succ_eq_map, List.map_cons, List.map_map,
    Nat.add_zero, Nat.mod_eq_of_lt fits.head, front, List.cons.injEq, true_and]
  apply List.map_congr_left
  intro k _
  simp only [Function.comp_apply]
  rw [Nat.mod_add_mod, Nat.add_right_comm, Nat.add_assoc]

theorem contents_eq_nil (empty : r.count = 0) : r.contents cap = [] := by
  simp [contents, empty]

end RingBuffer

end Buenos.Theory
