/-
# Vm.PageMap -- a page table is a map of pages

Every entry of a page table maps two neighbouring pages, each half on its own, and a new
entry starts from whatever its memory held.  Read through the scan of the TLB exception
handlers, the table is a map from virtual pages to physical pages and dirty bits: `vm_map`
adds a page and `vm_set_dirty` changes the bit of one, and neither touches another page
(`pageMap`).
-/
import Buenos.Theory.Run
import Buenos.Vm.Pagetable
import Mathlib.Data.Finset.Card

namespace Buenos.Vm.PageMap

open Buenos.Theory Buenos.Vm.Pagetable

set_option autoImplicit false

/-! ## What an entry and a table say of an address -/

/-- `tlb_entry_get_paddr` after its assertion. -/
def tlbEntryGetPaddr (entry : TlbEntry) (vaddr : BitVec 32) : BitVec 32 :=
  if addrIsOnEvenPage vaddr then entry.pfn0.setWidth 32 <<< 12 else entry.pfn1.setWidth 32 <<< 12

def dirtyBit (entry : TlbEntry) (vaddr : BitVec 32) : Bool :=
  if addrIsOnEvenPage vaddr then entry.d0 else entry.d1

/-- The physical page and the dirty bit that an entry gives for an address of its pair. -/
def view (entry : TlbEntry) (vaddr : BitVec 32) : Option (BitVec 32 × Bool) :=
  if tlbEntryIsValid entry vaddr then some (tlbEntryGetPaddr entry vaddr, dirtyBit entry vaddr)
  else none

/-- The page and the bit in the entry that the exception handlers find for the address. -/
def translate (table : Pagetable) (vaddr : BitVec 32) : Option (BitVec 32 × Bool) :=
  (tlbStoreException table vaddr).map fun entry =>
    (tlbEntryGetPaddr entry vaddr, dirtyBit entry vaddr)

theorem translate_eq (table : Pagetable) (vaddr : BitVec 32) :
    translate table vaddr =
      (table.find (vpn2Of vaddr)).bind fun i => view (table.entries i) vaddr := by
  unfold translate tlbStoreException
  cases table.find (vpn2Of vaddr) with
  | none => rfl
  | some i =>
      simp only [Option.bind_some, view]
      cases tlbEntryIsValid (table.entries i) vaddr <;> rfl

/-- The number of a virtual page. -/
def pageOf (vaddr : BitVec 32) : BitVec 20 := vaddr.extractLsb' 12 20

/-- A page is one half of a pair. -/
theorem pageOf_eq_iff {u v : BitVec 32} :
    pageOf u = pageOf v ↔ vpn2Of u = vpn2Of v ∧ addrIsOnEvenPage u = addrIsOnEvenPage v := by
  have low : addrIsOnEvenPage u = addrIsOnEvenPage v ↔ u.getLsbD 12 = v.getLsbD 12 := by
    unfold addrIsOnEvenPage
    cases u.getLsbD 12 <;> cases v.getLsbD 12 <;> decide
  rw [low]
  constructor
  · intro same
    have bits : ∀ k, k < 20 → u.getLsbD (12 + k) = v.getLsbD (12 + k) := by
      intro k bound
      have bit := congrArg (fun page => page.getLsbD k) same
      simpa [pageOf, BitVec.getLsbD_extractLsb', bound] using bit
    refine ⟨?_, bits 0 (by decide)⟩
    apply BitVec.eq_of_getLsbD_eq
    intro k bound
    have bit := bits (k + 1) (by omega)
    rw [show 12 + (k + 1) = 13 + k by omega] at bit
    simp [vpn2Of, bound, bit]
  · rintro ⟨pair, half⟩
    apply BitVec.eq_of_getLsbD_eq
    intro k bound
    cases k with
    | zero => simpa [pageOf, BitVec.getLsbD_extractLsb'] using half
    | succ k =>
        have bit := congrArg (fun vpn2 => vpn2.getLsbD k) pair
        have inside : k < 19 := by omega
        simp only [vpn2Of, BitVec.getLsbD_extractLsb', inside, decide_true, Bool.true_and] at bit
        rw [show 13 + k = 12 + (k + 1) by omega] at bit
        simp [pageOf, bound, bit]

/-- The pfn of a page-aligned address leads back to it. -/
theorem paddr_pfnOf {physaddr : BitVec 32} (aligned : physaddr.toNat % 4096 = 0) :
    (pfnOf physaddr).setWidth 32 <<< 12 = physaddr := by
  have small := physaddr.isLt
  apply BitVec.eq_of_toNat_eq
  rw [BitVec.toNat_shiftLeft, BitVec.toNat_setWidth, pfnOf, BitVec.extractLsb'_toNat,
    Nat.shiftRight_eq_div_pow, Nat.shiftLeft_eq]
  omega

/-! ## The operations -/

/-- The half of an entry that an address is not on. -/
def otherHalf (entry : TlbEntry) (vaddr : BitVec 32) : Option (BitVec 32 × Bool) :=
  if addrIsOnEvenPage vaddr then
    if entry.v1 then some (entry.pfn1.setWidth 32 <<< 12, entry.d1) else none
  else if entry.v0 then some (entry.pfn0.setWidth 32 <<< 12, entry.d0) else none

/-- The entry is for the pair of the address, with `value` in its half and `old` in the
other. -/
structure Sets (vaddr : BitVec 32) (value : BitVec 32 × Bool) (old : Option (BitVec 32 × Bool))
    (entry : TlbEntry) : Prop where
  pair : entry.vpn2 = vpn2Of vaddr
  same : ∀ v, addrIsOnEvenPage v = addrIsOnEvenPage vaddr → view entry v = some value
  other : ∀ v, addrIsOnEvenPage v ≠ addrIsOnEvenPage vaddr → view entry v = old

theorem view_of_ne {entry : TlbEntry} {v vaddr : BitVec 32}
    (apart : addrIsOnEvenPage v ≠ addrIsOnEvenPage vaddr) : view entry v = otherHalf entry vaddr := by
  unfold view otherHalf tlbEntryIsValid tlbEntryGetPaddr dirtyBit
  cases first : addrIsOnEvenPage v <;> cases second : addrIsOnEvenPage vaddr
  · exact absurd (first.trans second.symm) apart
  · rfl
  · rfl
  · exact absurd (first.trans second.symm) apart

theorem view_congr {entry : TlbEntry} {v vaddr : BitVec 32}
    (same : addrIsOnEvenPage v = addrIsOnEvenPage vaddr) : view entry v = view entry vaddr := by
  unfold view tlbEntryIsValid tlbEntryGetPaddr dirtyBit
  rw [same]

theorem sets_of_view {entry : TlbEntry} {vaddr : BitVec 32} {value : BitVec 32 × Bool}
    {old : Option (BitVec 32 × Bool)} (pair : entry.vpn2 = vpn2Of vaddr)
    (here : view entry vaddr = some value) (there : otherHalf entry vaddr = old) :
    Sets vaddr value old entry where
  pair := pair
  same _ same := (view_congr same).trans here
  other _ apart := (view_of_ne apart).trans there

section Operations

variable {table : Pagetable} {physaddr vaddr : BitVec 32} (dirty : Bool)

/-- **vm_map, the pair known.**  The entry of the pair gets the page in one half and keeps
the other. -/
theorem vmMap_known {i : Nat} (aligned : physaddr.toNat % 4096 = 0)
    (found : table.find (vpn2Of vaddr) = some i)
    (unmapped : tlbEntryIsValid (table.entries i) vaddr = false) :
    ∃ entry, vmMap table physaddr vaddr dirty = some (table.setEntry i entry) ∧
      Sets vaddr (physaddr, dirty) (otherHalf (table.entries i) vaddr) entry := by
  have paddr := paddr_pfnOf aligned
  have pair := (find_some found).2
  cases half : addrIsOnEvenPage vaddr
  · have clear : (table.entries i).v1 = false := by simpa [tlbEntryIsValid, half] using unmapped
    refine ⟨{ table.entries i with pfn1 := pfnOf physaddr, v1 := true, g1 := false, d1 := dirty },
      by simp [vmMap, found, half, clear], sets_of_view pair ?_ ?_⟩
    · simp [view, tlbEntryIsValid, tlbEntryGetPaddr, dirtyBit, half, paddr]
    · simp [otherHalf, half]
  · have clear : (table.entries i).v0 = false := by simpa [tlbEntryIsValid, half] using unmapped
    refine ⟨{ table.entries i with pfn0 := pfnOf physaddr, v0 := true, g0 := false, d0 := dirty },
      by simp [vmMap, found, half, clear], sets_of_view pair ?_ ?_⟩
    · simp [view, tlbEntryIsValid, tlbEntryGetPaddr, dirtyBit, half, paddr]
    · simp [otherHalf, half]

/-- **vm_map, a new pair.**  With room, the first unused entry gets the page in one half
and nothing in the other, whatever it held. -/
theorem vmMap_new (aligned : physaddr.toNat % 4096 = 0)
    (absent : table.find (vpn2Of vaddr) = none) (room : table.validCount < PAGETABLE_ENTRIES) :
    ∃ entry, vmMap table physaddr vaddr dirty =
        some (setEntry { table with validCount := table.validCount + 1 } table.validCount entry) ∧
      Sets vaddr (physaddr, dirty) none entry := by
  have paddr := paddr_pfnOf aligned
  have space : ¬PAGETABLE_ENTRIES ≤ table.validCount := Nat.not_le.2 room
  cases half : addrIsOnEvenPage vaddr
  · refine ⟨{ table.entries table.validCount with
        vpn2 := vpn2Of vaddr, asid := table.asid.setWidth 8, pfn1 := pfnOf physaddr, d1 := dirty,
        v1 := true, g1 := false, v0 := false },
      by simp [vmMap, absent, half, space], sets_of_view rfl ?_ ?_⟩
    · simp [view, tlbEntryIsValid, tlbEntryGetPaddr, dirtyBit, half, paddr]
    · simp [otherHalf, half]
  · refine ⟨{ table.entries table.validCount with
        vpn2 := vpn2Of vaddr, asid := table.asid.setWidth 8, pfn0 := pfnOf physaddr, d0 := dirty,
        v0 := true, g0 := false, v1 := false },
      by simp [vmMap, absent, half, space], sets_of_view rfl ?_ ?_⟩
    · simp [view, tlbEntryIsValid, tlbEntryGetPaddr, dirtyBit, half, paddr]
    · simp [otherHalf, half]

/-- **vm_set_dirty.**  The half of a mapped page gets the bit and keeps its page. -/
theorem vmSetDirty_spec {i : Nat} {bit : Bool} (found : table.find (vpn2Of vaddr) = some i)
    (mapped : view (table.entries i) vaddr = some (physaddr, bit)) :
    ∃ entry, vmSetDirty table vaddr dirty = some (table.setEntry i entry) ∧
      Sets vaddr (physaddr, dirty) (otherHalf (table.entries i) vaddr) entry := by
  have pair := (find_some found).2
  cases half : addrIsOnEvenPage vaddr
  · simp only [view, tlbEntryIsValid, tlbEntryGetPaddr, half, Bool.false_eq_true, if_false,
      Option.ite_none_right_eq_some, Option.some.injEq, Prod.mk.injEq] at mapped
    obtain ⟨valid, page, -⟩ := mapped
    refine ⟨{ table.entries i with d1 := dirty }, by simp [vmSetDirty, found, half, valid],
      sets_of_view pair ?_ ?_⟩
    · simp [view, tlbEntryIsValid, tlbEntryGetPaddr, dirtyBit, half, valid, page]
    · simp [otherHalf, half]
  · simp only [view, tlbEntryIsValid, tlbEntryGetPaddr, half, if_true,
      Option.ite_none_right_eq_some, Option.some.injEq, Prod.mk.injEq] at mapped
    obtain ⟨valid, page, -⟩ := mapped
    refine ⟨{ table.entries i with d0 := dirty }, by simp [vmSetDirty, found, half, valid],
      sets_of_view pair ?_ ?_⟩
    · simp [view, tlbEntryIsValid, tlbEntryGetPaddr, dirtyBit, half, valid, page]
    · simp [otherHalf, half]

end Operations

/-! ## Tables that hold a map -/

/-- The table has one entry for every pair, each with the pages given for its halves. -/
structure Holds (table : Pagetable) (pages : BitVec 20 → Option (BitVec 32 × Bool))
    (pairs : Finset (BitVec 19)) : Prop where
  count : table.validCount = pairs.card
  distinct : ∀ i j, i < table.validCount → j < table.validCount →
    (table.entries i).vpn2 = (table.entries j).vpn2 → i = j
  known : ∀ i, i < table.validCount → (table.entries i).vpn2 ∈ pairs
  present : ∀ pair ∈ pairs, ∃ i, i < table.validCount ∧ (table.entries i).vpn2 = pair
  agree : ∀ i, i < table.validCount → ∀ v, vpn2Of v = (table.entries i).vpn2 →
    view (table.entries i) v = pages (pageOf v)
  absent : ∀ v, vpn2Of v ∉ pairs → pages (pageOf v) = none

namespace Holds

variable {table : Pagetable} {pages : BitVec 20 → Option (BitVec 32 × Bool)}
  {pairs : Finset (BitVec 19)}

theorem find_iff (holds : Holds table pages pairs) {vpn2 : BitVec 19} {i : Nat} :
    table.find vpn2 = some i ↔ i < table.validCount ∧ (table.entries i).vpn2 = vpn2 := by
  constructor
  · exact find_some
  · rintro ⟨inside, same⟩
    cases found : table.find vpn2 with
    | some j =>
        obtain ⟨below, pair⟩ := find_some found
        rw [holds.distinct j i below inside (pair.trans same.symm)]
    | none =>
        have none_ := List.find?_eq_none.1 found i (List.mem_range.2 inside)
        simp [same] at none_

theorem find_none (holds : Holds table pages pairs) {vpn2 : BitVec 19} (new : vpn2 ∉ pairs) :
    table.find vpn2 = none := by
  cases found : table.find vpn2 with
  | none => rfl
  | some i =>
      obtain ⟨inside, same⟩ := find_some found
      exact absurd (same ▸ holds.known i inside) new

/-- **The scan gives the map.** -/
theorem translate (holds : Holds table pages pairs) (v : BitVec 32) :
    translate table v = pages (pageOf v) := by
  rw [translate_eq]
  by_cases pair : vpn2Of v ∈ pairs
  · obtain ⟨i, inside, same⟩ := holds.present _ pair
    rw [holds.find_iff.2 ⟨inside, same⟩]
    exact holds.agree i inside v same.symm
  · rw [holds.find_none pair, holds.absent v pair]
    rfl

theorem boot (asid : BitVec 32) (page : Nat → TlbEntry) :
    Holds (vmCreatePagetable asid page) (fun _ => none) ∅ where
  count := rfl
  distinct i _ inside := absurd inside (Nat.not_lt_zero i)
  known i inside := absurd inside (Nat.not_lt_zero i)
  present _ member := absurd member (Finset.notMem_empty _)
  agree i inside := absurd inside (Nat.not_lt_zero i)
  absent _ _ := rfl

/-- Setting one half of the entry of a pair sets one page. -/
theorem setEntry (holds : Holds table pages pairs) {i : Nat} {vaddr : BitVec 32}
    {value : BitVec 32 × Bool} {entry : TlbEntry} (found : table.find (vpn2Of vaddr) = some i)
    (sets : Sets vaddr value (otherHalf (table.entries i) vaddr) entry) :
    Holds (table.setEntry i entry) (Function.update pages (pageOf vaddr) (some value)) pairs := by
  obtain ⟨inside, pair⟩ := find_some found
  have vpn2 : ∀ j, ((table.setEntry i entry).entries j).vpn2 = (table.entries j).vpn2 := by
    intro j
    by_cases here : j = i
    · subst here
      rw [pair, ← sets.pair]
      simp [Pagetable.setEntry]
    · simp [Pagetable.setEntry, here]
  refine ⟨holds.count, ?_, ?_, ?_, ?_, ?_⟩
  · intro j k jin kin same
    rw [vpn2, vpn2] at same
    exact holds.distinct j k jin kin same
  · intro j jin
    rw [vpn2]
    exact holds.known j jin
  · intro q member
    obtain ⟨j, jin, same⟩ := holds.present q member
    exact ⟨j, jin, (vpn2 j).trans same⟩
  · intro j jin v same
    rw [vpn2] at same
    have before := holds.agree j jin v same
    by_cases here : j = i
    · subst here
      have change : (table.setEntry j entry).entries j = entry := by simp [Pagetable.setEntry]
      rw [change]
      by_cases half : addrIsOnEvenPage v = addrIsOnEvenPage vaddr
      · have page : pageOf v = pageOf vaddr := pageOf_eq_iff.2 ⟨same.trans pair, half⟩
        rw [sets.same v half, page, Function.update_self]
      · have page : pageOf v ≠ pageOf vaddr := fun eq => half (pageOf_eq_iff.1 eq).2
        rw [sets.other v half, Function.update_of_ne page, ← before, view_of_ne half]
    · have stays : (table.setEntry i entry).entries j = table.entries j := by
        simp [Pagetable.setEntry, here]
      have page : pageOf v ≠ pageOf vaddr := by
        intro eq
        have both := (pageOf_eq_iff.1 eq).1
        exact here (holds.distinct j i jin inside (same.symm.trans (both.trans pair.symm)))
      rw [stays, before, Function.update_of_ne page]
  · intro v outside
    have page : pageOf v ≠ pageOf vaddr := by
      intro eq
      rw [(pageOf_eq_iff.1 eq).1, ← pair] at outside
      exact outside (holds.known i inside)
    rw [Function.update_of_ne page, holds.absent v outside]

/-- A new entry adds its pair, with one page mapped. -/
theorem append (holds : Holds table pages pairs) {vaddr : BitVec 32} {value : BitVec 32 × Bool}
    {entry : TlbEntry} (new : vpn2Of vaddr ∉ pairs) (sets : Sets vaddr value none entry) :
    Holds (Pagetable.setEntry { table with validCount := table.validCount + 1 } table.validCount
        entry)
      (Function.update pages (pageOf vaddr) (some value)) (insert (vpn2Of vaddr) pairs) := by
  have last : (Pagetable.setEntry { table with validCount := table.validCount + 1 }
      table.validCount entry).entries table.validCount = entry := by simp [Pagetable.setEntry]
  have first : ∀ j, j < table.validCount → (Pagetable.setEntry
      { table with validCount := table.validCount + 1 } table.validCount entry).entries j =
        table.entries j := by
    intro j inside
    simp [Pagetable.setEntry, Nat.ne_of_lt inside]
  have split : ∀ j, j < table.validCount + 1 → j < table.validCount ∨ j = table.validCount := by
    omega
  have apart : ∀ j, j < table.validCount → (table.entries j).vpn2 ≠ vpn2Of vaddr :=
    fun j inside same => new (same ▸ holds.known j inside)
  refine ⟨?_, ?_, ?_, ?_, ?_, ?_⟩
  · rw [Finset.card_insert_of_notMem new, ← holds.count]
    rfl
  · intro j k jin kin same
    rcases split j jin with jin | rfl <;> rcases split k kin with kin | rfl
    · rw [first j jin, first k kin] at same
      exact holds.distinct j k jin kin same
    · rw [first j jin, last, sets.pair] at same
      exact absurd same (apart j jin)
    · rw [last, first k kin, sets.pair] at same
      exact absurd same.symm (apart k kin)
    · rfl
  · intro j jin
    rcases split j jin with jin | rfl
    · rw [first j jin]
      exact Finset.mem_insert_of_mem (holds.known j jin)
    · rw [last, sets.pair]
      exact Finset.mem_insert_self _ _
  · intro q member
    rcases Finset.mem_insert.1 member with rfl | old
    · exact ⟨table.validCount, Nat.lt_succ_self _, by rw [last, sets.pair]⟩
    · obtain ⟨j, jin, same⟩ := holds.present q old
      exact ⟨j, Nat.lt_succ_of_lt jin, by rw [first j jin, same]⟩
  · intro j jin v same
    rcases split j jin with jin | rfl
    · rw [first j jin] at same ⊢
      have page : pageOf v ≠ pageOf vaddr :=
        fun eq => apart j jin (same.symm.trans (pageOf_eq_iff.1 eq).1)
      rw [holds.agree j jin v same, Function.update_of_ne page]
    · rw [last] at same ⊢
      rw [sets.pair] at same
      by_cases half : addrIsOnEvenPage v = addrIsOnEvenPage vaddr
      · rw [sets.same v half, pageOf_eq_iff.2 ⟨same, half⟩, Function.update_self]
      · have page : pageOf v ≠ pageOf vaddr := fun eq => half (pageOf_eq_iff.1 eq).2
        rw [sets.other v half, Function.update_of_ne page, holds.absent v (same ▸ new)]
  · intro v outside
    rw [Finset.mem_insert, not_or] at outside
    have page : pageOf v ≠ pageOf vaddr := fun eq => outside.1 (pageOf_eq_iff.1 eq).1
    rw [Function.update_of_ne page, holds.absent v outside.2]

end Holds

/-! ## Every run -/

/-- A page table, with what was last given for every page and the pairs of the pages
mapped so far. -/
structure State where
  table : Pagetable
  pages : BitVec 20 → Option (BitVec 32 × Bool)
  pairs : Finset (BitVec 19)

inductive Act where
  | map (physaddr vaddr : BitVec 32) (dirty : Bool)
  | setDirty (vaddr : BitVec 32) (dirty : Bool)

def Act.vaddr : Act → BitVec 32
  | .map _ vaddr _ => vaddr
  | .setDirty vaddr _ => vaddr

/-- The call has no result where it panics. -/
def step (s : State) : Act → Option State
  | .map physaddr vaddr dirty =>
      (vmMap s.table physaddr vaddr dirty).map fun table =>
        { table
          pages := Function.update s.pages (pageOf vaddr) (some (physaddr, dirty))
          pairs := insert (vpn2Of vaddr) s.pairs }
  | .setDirty vaddr dirty =>
      (vmSetDirty s.table vaddr dirty).map fun table =>
        { s with
          table
          pages := Function.update s.pages (pageOf vaddr)
            ((s.pages (pageOf vaddr)).map fun page => (page.1, dirty)) }

/-- Page-aligned addresses, a page at most once, at most `PAGETABLE_ENTRIES` pairs, and the
bit of mapped pages only. -/
def Legal (s : State) : Act → Prop
  | .map physaddr vaddr _ =>
      physaddr.toNat % 4096 = 0 ∧ vaddr.toNat % 4096 = 0 ∧ s.pages (pageOf vaddr) = none ∧
        (insert (vpn2Of vaddr) s.pairs).card ≤ PAGETABLE_ENTRIES
  | .setDirty vaddr _ => (s.pages (pageOf vaddr)).isSome

/-- A page table is made by `vm_create_pagetable`, in a page that held anything. -/
def boot (asid : BitVec 32) (page : Nat → TlbEntry) : State where
  table := vmCreatePagetable asid page
  pages := fun _ => none
  pairs := ∅

def pageMapSystem : System State Act where
  initial s := ∃ asid page, s = boot asid page
  step := step

def State.Sound (s : State) : Prop := Holds s.table s.pages s.pairs

/-- **One call.**  It does not panic, and the table holds the map with the one page set. -/
theorem step_sound {s : State} {act : Act} (sound : s.Sound) (legal : Legal s act) :
    ∃ t, step s act = some t ∧ t.Sound ∧
      ∀ page, page ≠ pageOf act.vaddr → t.pages page = s.pages page := by
  have agree := fun i (found : s.table.find (vpn2Of act.vaddr) = some i) =>
    sound.agree i (find_some found).1 act.vaddr (find_some found).2.symm
  cases act with
  | map physaddr vaddr dirty =>
      obtain ⟨aligned, -, unmapped, room⟩ := legal
      cases found : s.table.find (vpn2Of vaddr) with
      | some i =>
          have known := sound.known i (find_some found).1
          rw [(find_some found).2] at known
          have clear : tlbEntryIsValid (s.table.entries i) vaddr = false := by
            have nothing : view (s.table.entries i) vaddr = none := (agree i found).trans unmapped
            cases valid : tlbEntryIsValid (s.table.entries i) vaddr with
            | false => rfl
            | true => simp [view, valid] at nothing
          obtain ⟨entry, mapped, sets⟩ := vmMap_known dirty aligned found clear
          refine ⟨_, by rw [step, mapped]; rfl, ?_, fun _ other => Function.update_of_ne other _ _⟩
          rw [State.Sound, Finset.insert_eq_self.2 known]
          exact sound.setEntry found sets
      | none =>
          have new : vpn2Of vaddr ∉ s.pairs := by
            intro member
            obtain ⟨i, inside, same⟩ := sound.present _ member
            rw [sound.find_iff.2 ⟨inside, same⟩] at found
            cases found
          have space : s.table.validCount < PAGETABLE_ENTRIES := by
            rw [Finset.card_insert_of_notMem new, ← sound.count] at room
            exact room
          obtain ⟨entry, mapped, sets⟩ := vmMap_new dirty aligned found space
          refine ⟨_, by rw [step, mapped]; rfl, ?_, fun _ other => Function.update_of_ne other _ _⟩
          exact sound.append new sets
  | setDirty vaddr dirty =>
      obtain ⟨⟨physaddr, bit⟩, given⟩ := Option.isSome_iff_exists.1 legal
      have member : vpn2Of vaddr ∈ s.pairs := by
        by_contra outside
        rw [sound.absent vaddr outside] at given
        cases given
      obtain ⟨i, inside, same⟩ := sound.present _ member
      have found := sound.find_iff.2 ⟨inside, same⟩
      obtain ⟨entry, set, sets⟩ :=
        vmSetDirty_spec dirty found ((agree i found).trans given)
      refine ⟨_, by rw [step, set]; rfl, ?_, fun _ other => Function.update_of_ne other _ _⟩
      rw [State.Sound, given]
      exact sound.setEntry found sets

theorem reachable_sound {s : State} (reached : pageMapSystem.ReachableWhen Legal s) : s.Sound := by
  refine reached.invariant ?_ ?_
  · rintro s ⟨asid, page, rfl⟩
    exact Holds.boot asid page
  · intro s act t sound legal taken
    obtain ⟨t', taken', next, -⟩ := step_sound sound legal
    have same : some t = some t' := taken.symm.trans taken'
    cases same
    exact next

/-- **A page table is a map of pages.**  In every run of mappings and flag changes, the
entries in use are for different pairs, the exception handlers find for every address what
was last given for its page, and nothing for a page that was never mapped; the next call
does not panic and leaves the translation of every other page as it was. -/
theorem pageMap {s : State} (reached : pageMapSystem.ReachableWhen Legal s) :
    (∀ i j, i < s.table.validCount → j < s.table.validCount →
        (s.table.entries i).vpn2 = (s.table.entries j).vpn2 → i = j) ∧
      (∀ vaddr, translate s.table vaddr = s.pages (pageOf vaddr)) ∧
      ∀ act, Legal s act → ∃ t, pageMapSystem.step s act = some t ∧
        ∀ vaddr, pageOf vaddr ≠ pageOf act.vaddr →
          translate t.table vaddr = translate s.table vaddr := by
  have sound := reachable_sound reached
  refine ⟨sound.distinct, sound.translate, ?_⟩
  intro act legal
  obtain ⟨t, taken, next, others⟩ := step_sound sound legal
  refine ⟨t, taken, ?_⟩
  intro vaddr other
  rw [Holds.translate next, sound.translate, others _ other]

def zeroEntry : TlbEntry where
  vpn2 := 0
  asid := 0
  pfn0 := 0
  d0 := false
  v0 := false
  g0 := false
  pfn1 := 0
  d1 := false
  v1 := false
  g1 := false

/-- The two halves of one pair, the odd one first and made writable later. -/
theorem pageMap_pair :
    ∃ s, pageMapSystem.exec (boot 7 fun _ => zeroEntry)
        [.map 0x5000 0x1000 false, .map 0x6000 0x0000 true, .setDirty 0x1000 true] = some s ∧
      translate s.table 0x1abc = some (0x5000, true) ∧ translate s.table 0x2000 = none := by
  have guarded : pageMapSystem.Guarded Legal (boot 7 fun _ => zeroEntry)
      [.map 0x5000 0x1000 false, .map 0x6000 0x0000 true, .setDirty 0x1000 true] :=
    ⟨⟨rfl, rfl, rfl, by decide⟩, ⟨rfl, rfl, rfl, by decide⟩, rfl, trivial⟩
  have start : pageMapSystem.ReachableWhen Legal (boot 7 fun _ => zeroEntry) :=
    .start ⟨7, fun _ => zeroEntry, rfl⟩
  refine ⟨_, rfl, ?_, ?_⟩
  · exact (pageMap (start.exec guarded rfl)).2.1 0x1abc
  · exact (pageMap (start.exec guarded rfl)).2.1 0x2000

end Buenos.Vm.PageMap
