/-
# Vm.Pagetable -- page tables and the rows of a TLB

A page table is an array of TLB entries, each for a pair of pages, with the number of
entries in use.  It lies in a page of its own; the unused entries, and the fields of a
new entry that `vm_map` does not set, are whatever that page held before.  The cache
fields and the padding of an entry are left out.

A function that ends in a panic has the value `none`.
-/
import Mathlib.Logic.Function.Basic
import Mathlib.Tactic.Common

namespace Buenos.Vm

set_option autoImplicit false

def PAGETABLE_ENTRIES : Nat := 340

structure TlbEntry where
  vpn2 : BitVec 19
  asid : BitVec 8
  pfn0 : BitVec 20
  d0 : Bool
  v0 : Bool
  g0 : Bool
  pfn1 : BitVec 20
  d1 : Bool
  v1 : Bool
  g1 : Bool
  deriving DecidableEq

structure Pagetable where
  asid : BitVec 32
  validCount : Nat
  entries : Nat → TlbEntry

/-- `vaddr >> 13` -/
def vpn2Of (vaddr : BitVec 32) : BitVec 19 := vaddr.extractLsb' 13 19

/-- `physaddr >> 12` -/
def pfnOf (physaddr : BitVec 32) : BitVec 20 := physaddr.extractLsb' 12 20

def addrIsOnEvenPage (vaddr : BitVec 32) : Bool := !vaddr.getLsbD 12

/-- The test of `tlb_entry_is_valid` after its assertion. -/
def tlbEntryIsValid (entry : TlbEntry) (vaddr : BitVec 32) : Bool :=
  if addrIsOnEvenPage vaddr then entry.v0 else entry.v1

/-- `page` is what the allocated page held before. -/
def vmCreatePagetable (asid : BitVec 32) (page : Nat → TlbEntry) : Pagetable where
  asid := asid
  validCount := 0
  entries := page

namespace Pagetable

/-- The loops over the entries stop at the first one for the page pair. -/
def find (table : Pagetable) (vpn2 : BitVec 19) : Option Nat :=
  (List.range table.validCount).find? fun i => (table.entries i).vpn2 = vpn2

def setEntry (table : Pagetable) (i : Nat) (entry : TlbEntry) : Pagetable :=
  { table with entries := Function.update table.entries i entry }

end Pagetable

def vmMap (table : Pagetable) (physaddr vaddr : BitVec 32) (dirty : Bool) : Option Pagetable :=
  match table.find (vpn2Of vaddr) with
  | some i =>
      let entry := table.entries i
      if addrIsOnEvenPage vaddr then
        if entry.v0 then none
        else some (table.setEntry i
          { entry with pfn0 := pfnOf physaddr, v0 := true, g0 := false, d0 := dirty })
      else
        if entry.v1 then none
        else some (table.setEntry i
          { entry with pfn1 := pfnOf physaddr, v1 := true, g1 := false, d1 := dirty })
  | none =>
      if PAGETABLE_ENTRIES ≤ table.validCount then none
      else
        let entry :=
          { table.entries table.validCount with
            vpn2 := vpn2Of vaddr, asid := table.asid.setWidth 8 }
        let table := { table with validCount := table.validCount + 1 }
        if addrIsOnEvenPage vaddr then
          some (table.setEntry (table.validCount - 1)
            { entry with
              pfn0 := pfnOf physaddr, d0 := dirty, v0 := true, g0 := false, v1 := false })
        else
          some (table.setEntry (table.validCount - 1)
            { entry with
              pfn1 := pfnOf physaddr, d1 := dirty, v1 := true, g1 := false, v0 := false })

def vmSetDirty (table : Pagetable) (vaddr : BitVec 32) (dirty : Bool) : Option Pagetable :=
  match table.find (vpn2Of vaddr) with
  | some i =>
      let entry := table.entries i
      if addrIsOnEvenPage vaddr then
        if entry.v0 then some (table.setEntry i { entry with d0 := dirty }) else none
      else
        if entry.v1 then some (table.setEntry i { entry with d1 := dirty }) else none
  | none => none

/-- The entry that `tlb_store_exception`, and with it `tlb_load_exception`, writes to the
TLB. -/
def tlbStoreException (table : Pagetable) (badvaddr : BitVec 32) : Option TlbEntry :=
  match table.find (vpn2Of badvaddr) with
  | some i =>
      if tlbEntryIsValid (table.entries i) badvaddr then some (table.entries i) else none
  | none => none

namespace Pagetable

/-- The table maps something by this entry. -/
def Has (table : Pagetable) (entry : TlbEntry) : Prop :=
  ∃ i, i < table.validCount ∧ table.entries i = entry

/-- Every entry carries the address space identifier of the table. -/
def Tagged (table : Pagetable) : Prop :=
  ∀ entry, table.Has entry → entry.asid = table.asid.setWidth 8

theorem find_some {table : Pagetable} {vpn2 : BitVec 19} {i : Nat}
    (found : table.find vpn2 = some i) : i < table.validCount ∧ (table.entries i).vpn2 = vpn2 := by
  have member := List.mem_of_find?_eq_some found
  have same := List.find?_some found
  simp only [List.mem_range, decide_eq_true_eq] at member same
  exact ⟨member, same⟩

theorem has_setEntry {table : Pagetable} {i : Nat} {entry other : TlbEntry}
    (has : (table.setEntry i entry).Has other) :
    other = entry ∨ ∃ j, j ≠ i ∧ j < table.validCount ∧ table.entries j = other := by
  obtain ⟨j, inside, same⟩ := has
  by_cases here : j = i
  · subst here
    exact Or.inl (by simpa [setEntry] using same.symm)
  · exact Or.inr ⟨j, here, inside, by simpa [setEntry, here] using same⟩

theorem Tagged.setEntry {table : Pagetable} (tagged : table.Tagged) {i : Nat} {entry : TlbEntry}
    (asid : entry.asid = table.asid.setWidth 8) : (table.setEntry i entry).Tagged := by
  intro other has
  rcases has_setEntry has with rfl | ⟨j, -, inside, same⟩
  · exact asid
  · exact tagged other ⟨j, inside, same⟩

theorem has_setEntry_of_ne {table : Pagetable} {i : Nat} {entry other : TlbEntry}
    (has : table.Has other) (ne : table.entries i ≠ other) : (table.setEntry i entry).Has other := by
  obtain ⟨j, inside, same⟩ := has
  have here : j ≠ i := by
    rintro rfl
    exact ne same
  exact ⟨j, inside, by simpa [setEntry, here] using same⟩

end Pagetable

open Pagetable

theorem vmCreatePagetable_tagged (asid : BitVec 32) (page : Nat → TlbEntry) :
    (vmCreatePagetable asid page).Tagged := by
  rintro entry ⟨i, inside, -⟩
  exact absurd inside (Nat.not_lt_zero i)

theorem vmMap_asid {table table' : Pagetable} {physaddr vaddr : BitVec 32} {dirty : Bool}
    (mapped : vmMap table physaddr vaddr dirty = some table') : table'.asid = table.asid := by
  unfold vmMap at mapped
  split at mapped
  · dsimp only at mapped
    split at mapped
    all_goals
      split at mapped
      · cases mapped
      · cases mapped
        rfl
  · split at mapped
    · cases mapped
    · dsimp only at mapped
      split at mapped
      all_goals
        cases mapped
        rfl

theorem vmMap_tagged {table table' : Pagetable} {physaddr vaddr : BitVec 32} {dirty : Bool}
    (tagged : table.Tagged) (mapped : vmMap table physaddr vaddr dirty = some table') :
    table'.Tagged := by
  unfold vmMap at mapped
  split at mapped
  · rename_i i found
    have asid := tagged _ ⟨i, (find_some found).1, rfl⟩
    dsimp only at mapped
    split at mapped
    all_goals
      split at mapped
      · cases mapped
      · cases mapped
        exact tagged.setEntry asid
  · split at mapped
    · cases mapped
    · dsimp only at mapped
      -- The last entry is the new one, and the others are old.
      have extended : ∀ entry : TlbEntry, entry.asid = table.asid.setWidth 8 →
          (setEntry { table with validCount := table.validCount + 1 } table.validCount entry).Tagged := by
        intro entry asid other has
        rcases has_setEntry has with rfl | ⟨j, here, inside, same⟩
        · exact asid
        · have inside : j < table.validCount + 1 := inside
          exact tagged other ⟨j, by omega, same⟩
      split at mapped
      all_goals
        cases mapped
        exact extended _ rfl

theorem vmSetDirty_cases {table table' : Pagetable} {vaddr : BitVec 32} {dirty : Bool}
    (set : vmSetDirty table vaddr dirty = some table') :
    ∃ i entry, table.find (vpn2Of vaddr) = some i ∧ table' = table.setEntry i entry ∧
      entry.asid = (table.entries i).asid := by
  unfold vmSetDirty at set
  split at set
  · rename_i i found
    refine ⟨i, ?_⟩
    dsimp only at set
    split at set
    all_goals
      split at set
      · cases set
        exact ⟨_, found, rfl, rfl⟩
      · cases set
  · cases set

theorem vmSetDirty_tagged {table table' : Pagetable} {vaddr : BitVec 32} {dirty : Bool}
    (tagged : table.Tagged) (set : vmSetDirty table vaddr dirty = some table') : table'.Tagged := by
  obtain ⟨i, entry, found, rfl, asid⟩ := vmSetDirty_cases set
  exact tagged.setEntry (asid.trans (tagged _ ⟨i, (find_some found).1, rfl⟩))

/-- Entries for other page pairs stay. -/
theorem vmSetDirty_has {table table' : Pagetable} {vaddr : BitVec 32} {dirty : Bool}
    (set : vmSetDirty table vaddr dirty = some table') {entry : TlbEntry} (has : table.Has entry)
    (other : entry.vpn2 ≠ vpn2Of vaddr) : table'.Has entry := by
  obtain ⟨i, entry', found, rfl, -⟩ := vmSetDirty_cases set
  refine has_setEntry_of_ne has ?_
  rintro rfl
  exact other (find_some found).2

theorem vmSetDirty_asid {table table' : Pagetable} {vaddr : BitVec 32} {dirty : Bool}
    (set : vmSetDirty table vaddr dirty = some table') : table'.asid = table.asid := by
  obtain ⟨i, entry, -, rfl, -⟩ := vmSetDirty_cases set
  rfl

theorem tlbStoreException_has {table : Pagetable} {vaddr : BitVec 32} {entry : TlbEntry}
    (found : tlbStoreException table vaddr = some entry) : table.Has entry := by
  unfold tlbStoreException at found
  split at found
  · rename_i i at_
    split at found
    · cases found
      exact ⟨i, (find_some at_).1, rfl⟩
    · cases found
  · cases found

end Buenos.Vm
