/-
# Fs.DirectoryNames -- the bytes behind a name in the directory

The drivers put a file name into its directory entry with `stringcopy`, which does not pad what it
copies (Lib.Stringcopy).  `copyName` is this copy on a block (`copyName_stringcopy`).  A removed file
leaves its name behind, all but the first byte, and the next file that takes the entry has the rest
of it behind its own name: on the disk, too.

`stringcopy_pads_iff` says for the copy and for `flatfs_create` when nothing stale is left.
-/
import Buenos.Fs.FlatCreate
import Buenos.Lib.Stringcopy

namespace Buenos.Fs

open Buenos.Lib Buenos.Theory

set_option autoImplicit false

/-- Entry `j` holds a name that was cut to fit, and zeros behind it. -/
def NamePadded (md : Block) (j : Nat) (filename : Name) : Prop :=
  ∀ k < FLATFS_FILENAME_MAX,
    md.byte (20 * j + 4 + k) = (stringcopy filename FLATFS_FILENAME_MAX).char k

/-- The name field of entry `j` is zero from behind the name on. -/
def FieldCleared (md : Block) (j : Nat) (filename : Name) : Prop :=
  ∀ k, filename.length < k → k < FLATFS_FILENAME_MAX → md.byte (20 * j + 4 + k) = 0

/-! ## The copy on a block -/

section Copy

theorem charAt_eq (s : Name) (k : Nat) : charAt s k = s.char k := rfl

theorem stringcopy_char (s : Name) (n k : Nat) :
    (stringcopy s (n + 1)).char k = if k < n then s.char k else 0 := by
  rw [stringcopy, Nat.add_sub_cancel]
  by_cases less : k < n
  · rw [if_pos less]
    by_cases inside : k < s.length
    · rw [Name.char_of_lt _ (by rw [List.length_take]; omega), Name.char_of_lt _ inside, List.getElem_take]
    · rw [Name.char_of_le _ (by rw [List.length_take]; omega), Name.char_of_le _ (by omega)]
  · rw [if_neg less, Name.char_of_le _ (by rw [List.length_take]; omega)]

/-- The bytes of a block after a name has been copied into it. -/
theorem copyName_byte (b : Block) (pos : Nat) (s : Name) (n : Nat) {k : Nat} (inside : k < n + 1) :
    (copyName b pos s (n + 1)).byte (pos + k) =
      if k < min s.length n then s.char k else if k = min s.length n then 0 else b.byte (pos + k) := by
  have length : (stringcopy s (n + 1)).length = min s.length n := by
    rw [stringcopy, List.length_take, Nat.add_sub_cancel, Nat.min_comm]
  rw [copyName, byte_memcopy, length, charAt_eq, Nat.add_sub_cancel_left, stringcopy_char]
  by_cases before : k < min s.length n
  · rw [if_pos (by omega), if_pos (by omega), if_pos before]
  · rw [if_neg before]
    by_cases here : k = min s.length n
    · rw [if_pos (by omega), if_pos here]
      split
      · exact Name.char_of_le _ (by omega)
      · rfl
    · rw [if_neg (by omega), if_neg here]

/-- **What `stringcopy` does** to the memory of a block is what `copyName` does to the block. -/
theorem copyName_stringcopy {mem : Memory} {target source : Address} {s : Name} {b : Block}
    {pos : Nat} {buflen : CInt} (held : CstringAt mem source s) (apart : ¬ InString target source s)
    (positive : 1 ≤ buflen.val)
    (same : ∀ k < buflen.val.toNat, mem (cell target k) = b.byte (pos + k)) :
    ∀ k < buflen.val.toNat,
      ((Copying.start mem).stringcopy target source buflen).mem (cell target k) =
        (copyName b pos s buflen.val.toNat).byte (pos + k) := by
  have high := buflen.property.2
  obtain ⟨n, length⟩ : ∃ n, buflen.val.toNat = n + 1 := ⟨buflen.val.toNat - 1, by omega⟩
  rw [length] at same ⊢
  intro k inside
  rw [Copying.stringcopy, show (buflen.val - 1).toNat = n by omega, copyName_byte b pos s n inside,
    (stringcopyLoop_apart held (by omega) apart).1 k (by omega), same k inside]

end Copy

/-! ## The entry of a new file -/

section Create

/-- A stored name is padded if its field was. -/
theorem namePadded_iff (md : Block) (j : Nat) (filename : Name) (inode : Word) :
    NamePadded (storeEntry md j filename inode) j filename ↔ FieldCleared md j filename := by
  have bytes : ∀ k < 16, (storeEntry md j filename inode).byte (20 * j + 4 + k) =
      if k < min filename.length 15 then filename.char k
      else if k = min filename.length 15 then 0 else md.byte (20 * j + 4 + k) := by
    intro k inside
    rw [storeEntry, byte_update_ne _ _ (by omega)]
    exact copyName_byte md (20 * j + 4) filename 15 inside
  constructor
  · intro padded k behind inside
    have stored := padded k inside
    change k < 16 at inside
    change (storeEntry md j filename inode).byte _ = (stringcopy filename (15 + 1)).char k at stored
    rw [bytes k inside, if_neg (by omega), if_neg (by omega), stringcopy_char,
      Name.char_of_le _ (by omega), ite_self] at stored
    exact stored
  · intro cleared k inside
    have old := cleared k
    change k < 16 at inside
    change _ = (stringcopy filename (15 + 1)).char k
    rw [bytes k inside, stringcopy_char]
    by_cases before : k < min filename.length 15
    · rw [if_pos before, if_pos (by omega)]
    · rw [if_neg before]
      by_cases here : k = min filename.length 15
      · rw [if_pos here]
        split
        · rw [Name.char_of_le _ (by omega)]
        · rfl
      · rw [if_neg here, old (by omega) inside, Name.char_of_le _ (by omega), ite_self]

/-- The entry that a successful `flatfs_create` has written. -/
theorem flatfsCreate_name {s : Flat} (mounted : FlatMounted s) (filename : Name) (size : CInt) :
    (flatfsCreate filename size).Keeps s fun result t => result = VFS_OK →
      ∃ j, entryInode (s.blocks 2) j = 0 ∧ entryName (t.blocks 2) j = stringcopy filename 16 ∧
        (NamePadded (t.blocks 2) j filename ↔ FieldCleared (s.blocks 2) j filename) := by
  intro result t ran ok
  rcases flatfsCreate_stored mounted filename size with
    ⟨t', failed, -, -, -⟩ | ⟨t', j, p, made, -, created, -, stored, -⟩
  · rw [failed] at ran
    cases ran
    exact absurd ok (by decide)
  · rw [made] at ran
    cases ran
    refine ⟨j, created.free, created.directory.name, ?_⟩
    rw [stored, namePadded_iff]

/-- **Nothing stale is left** by `stringcopy` where the target was zero behind the terminator, and
by `flatfs_create` where the entry was zero behind the new name, and nowhere else. -/
theorem stringcopy_pads_iff {mem : Memory} {source : Address} {name : Name}
    (held : CstringAt mem source name) (target : Address) {buflen : CInt}
    (positive : 1 ≤ buflen.val) {s : Flat} (mounted : FlatMounted s) (filename : Name) (size : CInt) :
    (Fills ((Copying.start mem).stringcopy target source buflen) target name buflen.val.toNat ↔
      (¬ InString target source name ∧ TailCleared mem target name buflen.val.toNat) ∨
        (InString target source name ∧ Repeats target source name buflen.val.toNat)) ∧
      (flatfsCreate filename size).Keeps s fun result t => result = VFS_OK →
        ∃ j, entryInode (s.blocks 2) j = 0 ∧ entryName (t.blocks 2) j = stringcopy filename 16 ∧
          (NamePadded (t.blocks 2) j filename ↔ FieldCleared (s.blocks 2) j filename) :=
  ⟨stringcopy_fills_iff held target positive, flatfsCreate_name mounted filename size⟩

end Create

def sixBytes : CInt := ⟨6, by decide⟩

/-- In a target full of `z`, the `z` behind the terminator stay. -/
theorem stringcopy_stale : CstringAt (twoArrays 0x7a) 100 letterB ∧
    ¬ Fills ((Copying.start (twoArrays 0x7a)).stringcopy 200 100 sixBytes) 200 letterB 6 := by
  refine ⟨twoArrays_source _, fun fills => ?_⟩
  have stale := fills.padded 2 (by decide) (by decide)
  revert stale
  decide

/-- A target of zeros is padded, and so is the first name on a volume of ten blocks. -/
theorem stringcopy_zeroed :
    Fills ((Copying.start (twoArrays 0)).stringcopy 200 100 sixBytes) 200 letterB 6 ∧
      (flatfsCreate newName oneByte).Keeps tenBlocks fun result t => result = VFS_OK →
        ∃ j, entryInode (tenBlocks.blocks 2) j = 0 ∧
          entryName (t.blocks 2) j = stringcopy newName 16 ∧
          (NamePadded (t.blocks 2) j newName ↔ FieldCleared (tenBlocks.blocks 2) j newName) := by
  have calls := @stringcopy_pads_iff _ _ _ (twoArrays_source 0) 200 sixBytes (by decide) _
    flatMounted_tenBlocks newName oneByte
  refine ⟨calls.1.2 (.inl ⟨by decide, fun i low high => ?_⟩), calls.2⟩
  obtain rfl | rfl | rfl | rfl : i = 2 ∨ i = 3 ∨ i = 4 ∨ i = 5 := by
    change 1 < i at low
    change i < 6 at high
    omega
  all_goals rfl

end Buenos.Fs
