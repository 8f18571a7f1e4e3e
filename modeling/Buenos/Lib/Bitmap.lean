/-
# Lib.Bitmap -- bitmaps

A bitmap of lib/bitmap.c is an array of 32-bit words, and bit `pos` is bit
`pos % 32` of word `pos / 32`.  `bitmapFindnset` searches word by word, as the
source does; `bitmapFindnset_some` and `bitmapFindnset_none` say that it is
first fit, and everything the allocators use of it is in those two lemmas.
-/
import Mathlib.Data.Finset.Card
import Mathlib.Tactic.Common

namespace Buenos.Lib

set_option autoImplicit false

abbrev Word := BitVec 32

/-- A `bitmap_t` array: its words by index. -/
abbrev Bitmap := Nat → Word

def bitmapSizeof (numBits : Nat) : Nat := (numBits + 31) / 32 * 4

def bitmapGet (bitmap : Bitmap) (pos : Nat) : Bool := (bitmap (pos / 32)).getLsbD (pos % 32)

def bitmapSet (bitmap : Bitmap) (pos : Nat) (value : Bool) : Bitmap := fun i =>
  if i = pos / 32 then
    if value then bitmap i ||| (1#32 <<< (pos % 32)) else bitmap i &&& ~~~(1#32 <<< (pos % 32))
  else bitmap i

/-- The search, over the word indices still to be visited.  A word that is not full
has a clear bit; if that bit lies past the end there is none left. -/
def findnsetFrom (bitmap : Bitmap) (l : Nat) : List Nat → Option (Nat × Bitmap)
  | [] => none
  | i :: words =>
      if bitmap i ≠ 0xffffffff#32 then
        match (List.range 32).find? fun j => !bitmapGet bitmap (i * 32 + j) with
        | some j =>
            if l ≤ i * 32 + j then none
            else some (i * 32 + j, bitmapSet bitmap (i * 32 + j) true)
        | none => findnsetFrom bitmap l words
      else findnsetFrom bitmap l words

/-- The position set, with the new bitmap; `none` where the source returns -1. -/
def bitmapFindnset (bitmap : Bitmap) (l : Nat) : Option (Nat × Bitmap) :=
  findnsetFrom bitmap l (List.range (bitmapSizeof l / 4))

/-- The mask `1 << j` has exactly bit `j`. -/
theorem mask_getLsbD (j k : Nat) (bound : k < 32) :
    (1#32 <<< j).getLsbD k = decide (k = j) := by
  rw [BitVec.getLsbD_shiftLeft, BitVec.getLsbD_one]
  by_cases same : k = j
  · simp [same]
    omega
  · simp [same]
    omega

theorem bitmapGet_bitmapSet (bitmap : Bitmap) (p q : Nat) (value : Bool) :
    bitmapGet (bitmapSet bitmap p value) q = if q = p then value else bitmapGet bitmap q := by
  have bound : q % 32 < 32 := Nat.mod_lt _ (by decide)
  unfold bitmapGet bitmapSet
  by_cases word : q / 32 = p / 32
  · have place : q % 32 = p % 32 ↔ q = p := by omega
    rw [if_pos word]
    cases value
    · simp only [Bool.false_eq_true, if_false, BitVec.getLsbD_and, BitVec.getLsbD_not,
        mask_getLsbD _ _ bound, place]
      by_cases same : q = p
      · simp [same]
      · simp [same, bound]
    · simp only [if_true, BitVec.getLsbD_or, mask_getLsbD _ _ bound, place]
      by_cases same : q = p
      · simp [same]
      · simp [same]
  · have same : q ≠ p := fun h => word (by rw [h])
    rw [if_neg word, if_neg same]

@[simp] theorem bitmapGet_bitmapSet_self (bitmap : Bitmap) (p : Nat) (value : Bool) :
    bitmapGet (bitmapSet bitmap p value) p = value := by
  simp [bitmapGet_bitmapSet]

/-- A full word has no clear bit. -/
theorem bitmapGet_of_full {bitmap : Bitmap} {i : Nat} (full : bitmap i = 0xffffffff#32) {p : Nat}
    (within : p / 32 = i) : bitmapGet bitmap p = true := by
  unfold bitmapGet
  rw [within, full]
  have bound : p % 32 < 32 := Nat.mod_lt _ (by decide)
  have ones : (0xffffffff#32) = BitVec.allOnes 32 := by decide
  rw [ones, BitVec.getLsbD_allOnes]
  simpa using bound

/-- A word whose bits are all set is full. -/
theorem full_of_bitmapGet {bitmap : Bitmap} {i : Nat}
    (set : ∀ j < 32, bitmapGet bitmap (i * 32 + j) = true) : bitmap i = 0xffffffff#32 := by
  have ones : (0xffffffff#32) = BitVec.allOnes 32 := by decide
  rw [ones]
  apply BitVec.eq_of_getLsbD_eq
  intro j bound
  have bit := set j bound
  unfold bitmapGet at bit
  rw [show (i * 32 + j) / 32 = i by omega, show (i * 32 + j) % 32 = j by omega] at bit
  rw [bit, BitVec.getLsbD_allOnes]
  simpa using bound

/-- The clear bit found in a word that is not full: the first one. -/
theorem clear_in_word {bitmap : Bitmap} {i : Nat} (room : bitmap i ≠ 0xffffffff#32) :
    ∃ j < 32, (List.range 32).find? (fun j => !bitmapGet bitmap (i * 32 + j)) = some j ∧
      bitmapGet bitmap (i * 32 + j) = false ∧ ∀ k < j, bitmapGet bitmap (i * 32 + k) = true := by
  cases found : (List.range 32).find? fun j => !bitmapGet bitmap (i * 32 + j) with
  | none =>
      rw [List.find?_eq_none] at found
      exfalso
      apply room
      apply full_of_bitmapGet
      intro j bound
      simpa using found j (List.mem_range.2 bound)
  | some j =>
      rw [List.find?_range_eq_some] at found
      obtain ⟨clear, bound, before⟩ := found
      refine ⟨j, by simpa using bound, rfl, by simpa using clear, ?_⟩
      intro k less
      simpa using before k less

/-- What the search from word `i` on finds, when all words before `i` are full. -/
theorem findnsetFrom_some {bitmap bitmap' : Bitmap} {l p : Nat} (n i : Nat)
    (before : ∀ q < i * 32, bitmapGet bitmap q = true)
    (found : findnsetFrom bitmap l (List.range' i n) = some (p, bitmap')) :
    p < l ∧ bitmapGet bitmap p = false ∧ (∀ q < p, bitmapGet bitmap q = true) ∧
      bitmap' = bitmapSet bitmap p true := by
  induction n generalizing i with
  | zero => simp [findnsetFrom] at found
  | succ n ih =>
      rw [List.range'_succ] at found
      simp only [findnsetFrom] at found
      by_cases full : bitmap i = 0xffffffff#32
      · rw [if_neg (by simpa using full)] at found
        apply ih (i + 1) _ found
        intro q less
        by_cases earlier : q < i * 32
        · exact before q earlier
        · exact bitmapGet_of_full full (by omega)
      · obtain ⟨j, bound, first, clear, lower⟩ := clear_in_word full
        rw [if_pos full, first] at found
        dsimp only at found
        by_cases past : l ≤ i * 32 + j
        · simp [past] at found
        · rw [if_neg past] at found
          simp only [Option.some.injEq, Prod.mk.injEq] at found
          obtain ⟨rfl, rfl⟩ := found
          refine ⟨by omega, clear, ?_, rfl⟩
          intro q less
          by_cases earlier : q < i * 32
          · exact before q earlier
          · have := lower (q - i * 32) (by omega)
            rwa [show i * 32 + (q - i * 32) = q by omega] at this

theorem findnsetFrom_none {bitmap : Bitmap} {l : Nat} (n i : Nat)
    (before : ∀ q < i * 32, bitmapGet bitmap q = true)
    (found : findnsetFrom bitmap l (List.range' i n) = none) :
    ∀ q < l, q < (i + n) * 32 → bitmapGet bitmap q = true := by
  induction n generalizing i with
  | zero =>
      intro q _ less
      exact before q (by omega)
  | succ n ih =>
      rw [List.range'_succ] at found
      simp only [findnsetFrom] at found
      by_cases full : bitmap i = 0xffffffff#32
      · rw [if_neg (by simpa using full)] at found
        intro q within less
        apply ih (i + 1) _ found q within (by omega)
        intro q less
        by_cases earlier : q < i * 32
        · exact before q earlier
        · exact bitmapGet_of_full full (by omega)
      · obtain ⟨j, bound, first, clear, lower⟩ := clear_in_word full
        rw [if_pos full, first] at found
        dsimp only at found
        by_cases past : l ≤ i * 32 + j
        · intro q within _
          by_cases earlier : q < i * 32
          · exact before q earlier
          · have := lower (q - i * 32) (by omega)
            rwa [show i * 32 + (q - i * 32) = q by omega] at this
        · simp [past] at found

/-- **First fit.**  The position found is the first clear one, and it is now set. -/
theorem bitmapFindnset_some {bitmap bitmap' : Bitmap} {l p : Nat}
    (found : bitmapFindnset bitmap l = some (p, bitmap')) :
    p < l ∧ bitmapGet bitmap p = false ∧ (∀ q < p, bitmapGet bitmap q = true) ∧
      bitmap' = bitmapSet bitmap p true := by
  rw [bitmapFindnset, List.range_eq_range'] at found
  exact findnsetFrom_some _ 0 (fun q less => by omega) found

/-- **Nothing found** means that every position is set. -/
theorem bitmapFindnset_none {bitmap : Bitmap} {l : Nat} (found : bitmapFindnset bitmap l = none) :
    ∀ q < l, bitmapGet bitmap q = true := by
  rw [bitmapFindnset, List.range_eq_range'] at found
  intro q within
  apply findnsetFrom_none _ 0 (fun q less => by omega) found q within
  unfold bitmapSizeof
  omega

/-! ## Free positions -/

/-- The clear positions below `l`. -/
def clearBits (bitmap : Bitmap) (l : Nat) : Finset Nat :=
  (Finset.range l).filter fun p => bitmapGet bitmap p = false

theorem mem_clearBits {bitmap : Bitmap} {l p : Nat} :
    p ∈ clearBits bitmap l ↔ p < l ∧ bitmapGet bitmap p = false := by
  simp [clearBits]

theorem clearBits_bitmapSet {bitmap : Bitmap} {l p : Nat} :
    clearBits (bitmapSet bitmap p true) l = (clearBits bitmap l).erase p := by
  ext q
  simp only [mem_clearBits, Finset.mem_erase, bitmapGet_bitmapSet]
  by_cases same : q = p
  · simp [same]
  · simp [same]

theorem clearBits_bitmapSet_false {bitmap : Bitmap} {l p : Nat} (within : p < l) :
    clearBits (bitmapSet bitmap p false) l = insert p (clearBits bitmap l) := by
  ext q
  simp only [mem_clearBits, Finset.mem_insert, bitmapGet_bitmapSet]
  by_cases same : q = p
  · simp [same, within]
  · simp [same]

/-- The number of positions still free. -/
def free (bitmap : Bitmap) (l : Nat) : Nat := (clearBits bitmap l).card

theorem free_le (bitmap : Bitmap) (l : Nat) : free bitmap l ≤ l := by
  have most := Finset.card_filter_le (Finset.range l) fun q => bitmapGet bitmap q = false
  rwa [Finset.card_range] at most

theorem free_mono (bitmap : Bitmap) {l m : Nat} (le : l ≤ m) : free bitmap l ≤ free bitmap m := by
  apply Finset.card_le_card
  intro q mem
  obtain ⟨within, clear⟩ := mem_clearBits.1 mem
  exact mem_clearBits.2 ⟨Nat.lt_of_lt_of_le within le, clear⟩

theorem free_bitmapSet {bitmap : Bitmap} {l p : Nat} (within : p < l)
    (clear : bitmapGet bitmap p = false) :
    free bitmap l = free (bitmapSet bitmap p true) l + 1 := by
  unfold free
  rw [clearBits_bitmapSet]
  have mem : p ∈ clearBits bitmap l := mem_clearBits.2 ⟨within, clear⟩
  rw [Finset.card_erase_of_mem mem]
  have := Finset.card_pos.2 ⟨p, mem⟩
  omega

theorem free_eq_zero {bitmap : Bitmap} {l : Nat} (full : ∀ q < l, bitmapGet bitmap q = true) :
    free bitmap l = 0 := by
  unfold free
  rw [Finset.card_eq_zero, Finset.eq_empty_iff_forall_notMem]
  intro q mem
  obtain ⟨within, clear⟩ := mem_clearBits.1 mem
  rw [full q within] at clear
  cases clear

end Buenos.Lib
