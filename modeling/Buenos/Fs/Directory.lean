/-
# Fs.Directory -- the directory block

FlatFS and TFS have one directory block of 25 entries: word `5 * j` of the block is the
inode of entry `j`, and the 16 bytes after it are its name.  Searches compare whole
strings, so an entry's name is safe from changes to its neighbours only when it ends in
its own field; `Terminated` says that all of them do.

`EntrySet` says that one entry was given a name and an inode and that the others are as
they were; `storeEntry` and `clearEntry`, what the drivers do to the block when they create
and remove a file, are two cases of it.
-/
import Buenos.Fs.FlatFs

namespace Buenos.Fs

open Buenos.Lib

set_option autoImplicit false

/-! ## Strings in a block -/

theorem getElem?_cstring {xs : List Byte} {i : Nat} {c : CChar} (at_ : (cstring xs)[i]? = some c) :
    xs[i]? = some c.val := by
  induction xs generalizing i with
  | nil => simp [cstring] at at_
  | cons x xs ih =>
      unfold cstring at at_
      by_cases terminator : x = 0
      · simp [terminator] at at_
      · rw [dif_neg terminator] at at_
        cases i with
        | zero =>
            simp only [List.getElem?_cons_zero, Option.some.injEq] at at_
            simp [← at_]
        | succ i => simpa using ih (by simpa using at_)

/-- A string that ends within `m` bytes is decided by them. -/
theorem cstring_congr {xs ys : List Byte} {m : Nat} (short : (cstring xs).length < m)
    (same : ∀ i < m, xs[i]? = ys[i]?) : cstring xs = cstring ys := by
  induction xs generalizing ys m with
  | nil =>
      have first := same 0 (by omega)
      cases ys with
      | nil => rfl
      | cons y ys => simp at first
  | cons x xs ih =>
      have first := same 0 (by omega)
      cases ys with
      | nil => simp at first
      | cons y ys =>
          obtain rfl : x = y := by simpa using first
          unfold cstring at short ⊢
          by_cases terminator : x = 0
          · rw [dif_pos terminator, dif_pos terminator]
          · rw [dif_neg terminator, List.length_cons] at short
            rw [dif_neg terminator, dif_neg terminator]
            congr 1
            apply ih (m := m - 1) (by omega)
            intro i less
            simpa using same (i + 1) (by omega)

theorem nameAt_getElem? (b : Block) (pos : Nat) {i : Nat} (inside : pos + i < 512) :
    ((List.range (512 - pos)).map fun k => b.byte (pos + k))[i]? = some (b.byte (pos + i)) := by
  rw [List.getElem?_map, List.getElem?_range (by omega)]
  rfl

/-- A name that ends in its field is decided by the bytes of the field. -/
theorem nameAt_congr {b c : Block} {pos m : Nat} (short : (nameAt b pos).length < m)
    (inside : pos + m ≤ 512) (same : ∀ i < m, b.byte (pos + i) = c.byte (pos + i)) :
    nameAt b pos = nameAt c pos := by
  apply cstring_congr short
  intro i less
  rw [nameAt_getElem? b pos (by omega), nameAt_getElem? c pos (by omega), same i less]

/-- The name spelled by given characters and a terminator. -/
theorem nameAt_eq {b : Block} {pos : Nat} (name : Name) (inside : pos + name.length < 512)
    (spelled : ∀ i ≤ name.length, b.byte (pos + i) = charAt name i) : nameAt b pos = name := by
  rw [← cstring_append name []]
  symm
  have length : name.bytes.length = name.length := List.length_map _
  apply cstring_congr (m := name.length + 1)
  · rw [cstring_append]
    omega
  · intro i less
    rw [nameAt_getElem? b pos (by omega), spelled i (by omega), charAt]
    by_cases last : i = name.length
    · rw [List.getElem?_append_right (by omega), last, length, Nat.sub_self,
        List.getD_eq_getElem?_getD, List.getElem?_eq_none (l := name.bytes) (by omega)]
      rfl
    · rw [List.getElem?_append_left (by omega), List.getD_eq_getElem?_getD,
        List.getElem?_eq_getElem (by omega)]
      rfl

/-- What ends a string that ends within its bytes. -/
theorem cstring_terminator {xs : List Byte} (ends : (cstring xs).length < xs.length) :
    xs[(cstring xs).length]? = some 0 := by
  induction xs with
  | nil => simp [cstring] at ends
  | cons x xs ih =>
      unfold cstring at ends ⊢
      by_cases terminator : x = 0
      · simp [terminator]
      · rw [dif_neg terminator, List.length_cons] at ends ⊢
        rw [List.getElem?_cons_succ]
        exact ih (by simpa using ends)

/-- The bytes that a name takes in a block, its terminator among them. -/
theorem nameAt_spelled {b : Block} {pos i : Nat} (inside : pos + (nameAt b pos).length < 512)
    (le : i ≤ (nameAt b pos).length) : b.byte (pos + i) = charAt (nameAt b pos) i := by
  have byte := nameAt_getElem? b pos (i := i) (by omega)
  have length : (nameAt b pos).bytes.length = (nameAt b pos).length := List.length_map _
  rw [charAt, List.getD_eq_getElem?_getD]
  by_cases last : i = (nameAt b pos).length
  · have within : (nameAt b pos).length <
        ((List.range (512 - pos)).map fun k => b.byte (pos + k)).length := by
      rw [List.length_map, List.length_range]
      omega
    have ends := cstring_terminator within
    change _[(nameAt b pos).length]? = _ at ends
    rw [← last, byte] at ends
    rw [List.getElem?_eq_none (by omega)]
    exact Option.some.inj ends
  · have less : i < (nameAt b pos).length := by omega
    have char := getElem?_cstring (List.getElem?_eq_getElem less)
    rw [byte] at char
    rw [List.getElem?_eq_getElem (by omega)]
    simpa [Name.bytes] using Option.some.inj char

theorem nameAt_nil {b : Block} {pos : Nat} (inside : pos < 512) (terminator : b.byte pos = 0) :
    nameAt b pos = [] :=
  nameAt_eq [] inside fun i less => by
    obtain rfl : i = 0 := by simpa using less
    simpa [charAt, Name.bytes] using terminator

/-! ## Entries -/

/-- Every name ends in its own field. -/
def Terminated (md : Block) : Prop := ∀ j < 25, (entryName md j).length < 16

/-- An entry holds no name while it is unused. -/
def Blanked (md : Block) : Prop := ∀ j < 25, entryInode md j = 0 → entryName md j = []

/-- Entry `j` of `md'` has this name and this inode; the others are those of `md`. -/
structure EntrySet (md md' : Block) (j : Nat) (name : Name) (inode : Word) : Prop where
  inside : j < 25
  inode : entryInode md' j = inode
  name : entryName md' j = name
  inodes : ∀ k < 25, k ≠ j → entryInode md' k = entryInode md k
  names : ∀ k < 25, k ≠ j → entryName md' k = entryName md k

section Entries

variable {md md' : Block} {j : Nat} {name : Name} {inode : Word}

theorem EntrySet.terminated (set : EntrySet md md' j name inode) (short : name.length < 16)
    (terminated : Terminated md) : Terminated md' := by
  intro k inside
  by_cases same : k = j
  · rw [same, set.name]
    exact short
  · rw [set.names k inside same]
    exact terminated k inside

theorem EntrySet.blanked (set : EntrySet md md' j name inode) (free : inode = 0 → name = [])
    (blanked : Blanked md) : Blanked md' := by
  intro k inside unused
  by_cases same : k = j
  · rw [same, set.inode] at unused
    rw [same, set.name]
    exact free unused
  · rw [set.inodes k inside same] at unused
    rw [set.names k inside same]
    exact blanked k inside unused

/-- Names that end in their fields are kept when only entry `j` changes. -/
theorem EntrySet.of_bytes (terminated : Terminated md) (inside : j < 25)
    (isInode : entryInode md' j = inode) (isName : entryName md' j = name)
    (kept : ∀ p < 512, p < 20 * j ∨ 20 * j + 20 ≤ p → md'.byte p = md.byte p) :
    EntrySet md md' j name inode where
  inside := inside
  inode := isInode
  name := isName
  inodes := fun k within ne => by
    apply Block.word_congr (b := md') (c := md) (i := 5 * k)
    exact fun p place => kept p (by omega) (by omega)
  names := fun k within ne => by
    symm
    apply nameAt_congr (terminated k within) (by omega)
    intro i less
    exact (kept _ (by omega) (by omega)).symm

/-- The block with a file in entry `j`. -/
def storeEntry (md : Block) (j : Nat) (filename : Name) (inode : Word) : Block :=
  Function.update (copyName md (20 * j + 4) filename FLATFS_FILENAME_MAX) (5 * j) inode

/-- The block with entry `j` unused. -/
def clearEntry (md : Block) (j : Nat) : Block :=
  memcopy 1 (Function.update md (5 * j) 0) (20 * j + 4) fun _ => 0

theorem stringcopy_short (filename : Name) : (stringcopy filename FLATFS_FILENAME_MAX).length < 16 := by
  have := stringcopy_length filename FLATFS_FILENAME_MAX
  unfold FLATFS_FILENAME_MAX at this ⊢
  omega

theorem byte_update_ne (b : Block) {i : Nat} (w : Word) {p : Nat} (ne : p / 4 ≠ i) :
    Block.byte (Function.update b i w) p = b.byte p :=
  Block.byte_congr (Function.update_of_ne ne _ _)

theorem byte_copyName (b : Block) (pos : Nat) (source : Name) (p : Nat) :
    (copyName b pos source FLATFS_FILENAME_MAX).byte p =
      if pos ≤ p ∧ p ≤ pos + (stringcopy source FLATFS_FILENAME_MAX).length then
        charAt (stringcopy source FLATFS_FILENAME_MAX) (p - pos)
      else b.byte p := by
  unfold copyName
  rw [byte_memcopy]
  simp only [Nat.lt_succ_iff, ← Nat.add_assoc]

theorem entrySet_store (filename : Name) (inode : Word) (terminated : Terminated md)
    (inside : j < 25) : EntrySet md (storeEntry md j filename inode) j
      (stringcopy filename FLATFS_FILENAME_MAX) inode := by
  have short := stringcopy_short filename
  apply EntrySet.of_bytes terminated inside
  · exact Function.update_self ..
  · apply nameAt_eq _ (by omega)
    intro i less
    unfold storeEntry
    rw [byte_update_ne _ _ (by omega), byte_copyName, if_pos (by omega), Nat.add_sub_cancel_left]
  · intro p _ apart
    unfold storeEntry
    rw [byte_update_ne _ _ (by omega), byte_copyName, if_neg (by omega)]

theorem entrySet_clear (terminated : Terminated md) (inside : j < 25) :
    EntrySet md (clearEntry md j) j [] 0 := by
  apply EntrySet.of_bytes terminated inside
  · unfold entryInode clearEntry
    rw [memcopy_word (by omega), Function.update_self]
  · apply nameAt_nil (by omega)
    unfold clearEntry
    rw [byte_memcopy, if_pos (by omega)]
  · intro p _ apart
    unfold clearEntry
    rw [byte_memcopy, if_neg (by omega), byte_update_ne _ _ (by omega)]

end Entries

/-! ## The searches -/

section Searches

variable {md : Block} {filename : Name} {j : Nat}

theorem findEntry_some (found : findEntry md filename = some j) :
    j < 25 ∧ entryName md j = filename ∧ ∀ k < j, entryName md k ≠ filename := by
  unfold findEntry FLATFS_MAX_FILES at found
  rw [List.find?_range_eq_some] at found
  simp only [stringcmp_eq_zero, decide_eq_true_eq, List.mem_range, Bool.not_eq_true',
    decide_eq_false_iff_not] at found
  exact ⟨found.2.1, found.1, found.2.2⟩

theorem findEntry_none : findEntry md filename = none ↔ ∀ k < 25, entryName md k ≠ filename := by
  unfold findEntry FLATFS_MAX_FILES
  simp [stringcmp_eq_zero]

/-- The first entry with the name is the one found. -/
theorem findEntry_eq (inside : j < 25) (named : entryName md j = filename)
    (before : ∀ k < j, entryName md k ≠ filename) : findEntry md filename = some j := by
  unfold findEntry FLATFS_MAX_FILES
  rw [List.find?_range_eq_some]
  simp only [stringcmp_eq_zero, decide_eq_true_eq, List.mem_range, Bool.not_eq_true',
    decide_eq_false_iff_not]
  exact ⟨named, inside, before⟩

/-- A search depends on which entries have the name. -/
theorem findEntry_congr {md' : Block}
    (same : ∀ k < 25, entryName md' k = filename ↔ entryName md k = filename) :
    findEntry md' filename = findEntry md filename := by
  cases found : findEntry md filename with
  | none =>
      have missing := findEntry_none.1 found
      exact findEntry_none.2 fun k inside named => missing k inside ((same k inside).1 named)
  | some j =>
      obtain ⟨inside, named, before⟩ := findEntry_some found
      exact findEntry_eq inside ((same j inside).2 named) fun k less named =>
        before k less ((same k (by omega)).1 named)

theorem findSlot_some (found : findSlot md = some j) : j < 25 ∧ entryInode md j = 0 := by
  unfold findSlot FLATFS_MAX_FILES at found
  have mem := List.mem_of_find?_eq_some found
  have unused := List.find?_some found
  simp only [List.mem_reverse, List.mem_range] at mem
  exact ⟨mem, by simpa using unused⟩

/-- A file found under a name is in use. -/
theorem findEntry_used (blanked : Blanked md) (named : filename ≠ [])
    (found : findEntry md filename = some j) : entryInode md j ≠ 0 := by
  obtain ⟨inside, name, -⟩ := findEntry_some found
  intro unused
  exact named (name.symm.trans (blanked j inside unused))

end Searches

end Buenos.Fs
