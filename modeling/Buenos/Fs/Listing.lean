/-
# Fs.Listing -- counting and naming the files of a directory

Both drivers list their directory by two loops over its entries, which skip the unused
ones: `filecount` counts the rest, and `file` names the one with a given index.
`countLoop_eq` and `fileLoop_eq` say that the two loops count alike: the number is the
length of `usedEntries`, and the index is a place in it.

The results that the drivers give to them are another matter.  `file` reports a name that
it found as VFS_ERROR, and `filecount` reports a directory that is not there as minus a
negative code: `directory_listing_iff`.
-/
import Buenos.Fs.Directory
import Buenos.Fs.Tfs

namespace Buenos.Fs

open Buenos.Lib Buenos.Theory

set_option autoImplicit false

/-! ## The two loops -/

/-- `for(..) if(inode != 0) ++count`, with `n` entries to go from entry `i` on. -/
def countLoop (md : Block) : Nat → Nat → Int → Int
  | 0, _, count => count
  | n + 1, i, count => countLoop md n (i + 1) (if entryInode md i ≠ 0 then count + 1 else count)

/-- The entry at which `inode != 0 && count++ == idx` comes true. -/
def fileLoop (md : Block) (idx : Int) : Nat → Nat → Int → Option Nat
  | 0, _, _ => none
  | n + 1, i, count =>
      if entryInode md i ≠ 0 then
        if count = idx then some i else fileLoop md idx n (i + 1) (count + 1)
      else fileLoop md idx n (i + 1) count

section Loops

variable (md : Block)

theorem countLoop_from (n i : Nat) (count : Int) :
    countLoop md n i count =
      count + ((List.range' i n).filter fun j => entryInode md j ≠ 0).length := by
  induction n generalizing i count with
  | zero => simp [countLoop]
  | succ n ih =>
      rw [countLoop, ih, List.range'_succ, List.filter_cons]
      by_cases used : entryInode md i ≠ 0
      · simp only [if_pos used, decide_eq_true used, if_true, List.length_cons]
        omega
      · simp only [if_neg used, decide_eq_false used, Bool.false_eq_true, if_false]

theorem fileLoop_from {idx : Int} (n i : Nat) {count : Int} (le : count ≤ idx) :
    fileLoop md idx n i count =
      ((List.range' i n).filter fun j => entryInode md j ≠ 0)[(idx - count).toNat]? := by
  induction n generalizing i count with
  | zero => simp [fileLoop]
  | succ n ih =>
      rw [fileLoop, List.range'_succ, List.filter_cons]
      by_cases used : entryInode md i ≠ 0
      · simp only [if_pos used, decide_eq_true used, if_true]
        by_cases here : count = idx
        · simp [here]
        · rw [if_neg here, ih (i + 1) (by omega),
            show (idx - count).toNat = (idx - (count + 1)).toNat + 1 by omega,
            List.getElem?_cons_succ]
      · simp only [if_neg used, decide_eq_false used, Bool.false_eq_true, if_false]
        exact ih (i + 1) le

theorem countLoop_eq : countLoop md FLATFS_MAX_FILES 0 0 = (usedEntries md).length := by
  rw [countLoop_from, usedEntries, List.range_eq_range', Int.zero_add]

theorem fileLoop_eq {idx : Int} (positive : 0 ≤ idx) :
    fileLoop md idx FLATFS_MAX_FILES 0 0 = (usedEntries md)[idx.toNat]? := by
  rw [fileLoop_from md _ _ positive, usedEntries, List.range_eq_range', Int.sub_zero]

/-- The used entries in slot order, each of them once. -/
def Listed (md : Block) (entries : List Nat) : Prop :=
  entries.Pairwise (· < ·) ∧ ∀ j, j ∈ entries ↔ j < FLATFS_MAX_FILES ∧ entryInode md j ≠ 0

theorem usedEntries_listed : Listed md (usedEntries md) := by
  constructor
  · exact List.pairwise_lt_range.filter _
  · intro j
    simp [usedEntries]

end Loops

/-! ## What the drivers answer -/

section Answers

variable {s : Flat} {s' : Tfs} (dirname : Name) (idx : CInt)

theorem flatfsFilecount_ran (ready : s.Ready) (free : 0 < s.lock) (room : 3 ≤ s.totalblocks) :
    ∃ t, Volume.Unchanged s t ∧ flatfsFilecount dirname s =
      .returned (if dirname = [] then countLoop (s.blocks 2) FLATFS_MAX_FILES 0 0
        else -VFS_NOT_FOUND, t) := by
  unfold flatfsFilecount
  by_cases root : dirname = []
  · have loaded : readBlock (BitVec.ofNat 32 FLATFS_DIRECTORY_BLOCK) FlatBuffer.md s.locked =
        .returned (true, s.locked.didRead 2 .md) :=
      Volume.readBlock_ready ready.locked _ (Nat.lt_of_lt_of_le (by decide) room)
    refine ⟨_, Volume.Unchanged.unlock ⟨.didRead 2 .md, rfl⟩, ?_⟩
    rw [if_neg (by simp [stringcmp_eq_zero, root]), Prog.bind_of_returned (Volume.lockP_free free),
      Prog.bind_of_returned loaded, if_pos root, countLoop_eq]
    rfl
  · refine ⟨s, ⟨.refl s, rfl⟩, ?_⟩
    rw [if_pos (by simp [stringcmp_eq_zero, root]), if_neg root]
    rfl

theorem tfsFilecount_ran (ready : s'.Ready) (free : 0 < s'.lock) (room : 3 ≤ s'.totalblocks) :
    ∃ t, Volume.Unchanged s' t ∧ tfsFilecount dirname s' =
      .returned (if dirname = [] then countLoop (s'.blocks 2) FLATFS_MAX_FILES 0 0
        else -VFS_NOT_FOUND, t) := by
  unfold tfsFilecount
  by_cases root : dirname = []
  · have loaded : readBlock (BitVec.ofNat 32 TFS_DIRECTORY_BLOCK) TfsBuffer.md s'.locked =
        .returned (true, s'.locked.didRead 2 .md) :=
      Volume.readBlock_ready ready.locked _ (Nat.lt_of_lt_of_le (by decide) room)
    refine ⟨_, Volume.Unchanged.unlock ⟨.didRead 2 .md, rfl⟩, ?_⟩
    rw [if_neg (by simp [stringcmp_eq_zero, root]), Prog.bind_of_returned (Volume.lockP_free free),
      Prog.bind_of_returned loaded, if_pos root, countLoop_eq]
    rfl
  · refine ⟨s', ⟨.refl s', rfl⟩, ?_⟩
    rw [if_pos (by simp [stringcmp_eq_zero, root]), if_neg root]
    rfl

/-- The name that a call leaves in the caller's buffer, if it finds one. -/
def nameFound (md : Block) (dirname : Name) (idx : Int) : Option Name :=
  if dirname = [] ∧ 0 ≤ idx then
    (fileLoop md idx FLATFS_MAX_FILES 0 0).map fun j =>
      stringcopy (entryName md j) FLATFS_FILENAME_MAX
  else none

theorem flatfsFile_ran (ready : s.Ready) (free : 0 < s.lock) (room : 3 ≤ s.totalblocks) :
    ∃ t, Volume.Unchanged s t ∧ flatfsFile dirname idx s =
      .returned ((nameFound (s.blocks 2) dirname idx.val).elim (VFS_NOT_FOUND, [])
        fun name => (VFS_ERROR, name), t) := by
  unfold flatfsFile nameFound
  by_cases asked : dirname = [] ∧ 0 ≤ idx.val
  · have loaded : readBlock (BitVec.ofNat 32 FLATFS_DIRECTORY_BLOCK) FlatBuffer.md s.locked =
        .returned (true, s.locked.didRead 2 .md) :=
      Volume.readBlock_ready ready.locked _ (Nat.lt_of_lt_of_le (by decide) room)
    refine ⟨_, Volume.Unchanged.unlock ⟨.didRead 2 .md, rfl⟩, ?_⟩
    rw [if_neg (by simp [stringcmp_eq_zero, asked.1, asked.2]), if_pos asked,
      fileLoop_eq _ asked.2, Prog.bind_of_returned (Volume.lockP_free free),
      Prog.bind_of_returned loaded]
    simp only [if_true, Prog.bind_gets_apply, Volume.didRead_buffer, Function.update_self,
      Volume.locked_blocks]
    cases (usedEntries (s.blocks 2))[idx.val.toNat]? <;> rfl
  · refine ⟨s, ⟨.refl s, rfl⟩, ?_⟩
    have missed : stringcmp dirname [] ≠ 0 ∨ idx.val < 0 := by
      rw [ne_eq, stringcmp_eq_zero]
      exact (not_and_or.1 asked).imp_right Int.not_le.1
    rw [if_neg asked, if_pos missed]
    rfl

theorem tfsFile_ran (ready : s'.Ready) (free : 0 < s'.lock) (room : 3 ≤ s'.totalblocks) :
    ∃ t, Volume.Unchanged s' t ∧ tfsFile dirname idx s' =
      .returned ((nameFound (s'.blocks 2) dirname idx.val).elim (VFS_ERROR, [])
        fun name => (VFS_ERROR, name), t) := by
  unfold tfsFile nameFound
  by_cases asked : dirname = [] ∧ 0 ≤ idx.val
  · have loaded : readBlock (BitVec.ofNat 32 TFS_DIRECTORY_BLOCK) TfsBuffer.md s'.locked =
        .returned (true, s'.locked.didRead 2 .md) :=
      Volume.readBlock_ready ready.locked _ (Nat.lt_of_lt_of_le (by decide) room)
    refine ⟨_, Volume.Unchanged.unlock ⟨.didRead 2 .md, rfl⟩, ?_⟩
    rw [if_neg (by simp [stringcmp_eq_zero, asked.1, asked.2]), if_pos asked,
      fileLoop_eq _ asked.2, Prog.bind_of_returned (Volume.lockP_free free),
      Prog.bind_of_returned loaded]
    simp only [if_true, Prog.bind_gets_apply, Volume.didRead_buffer, Function.update_self,
      Volume.locked_blocks]
    cases (usedEntries (s'.blocks 2))[idx.val.toNat]? <;> rfl
  · refine ⟨s', ⟨.refl s', rfl⟩, ?_⟩
    have missed : stringcmp dirname [] ≠ 0 ∨ idx.val < 0 := by
      rw [ne_eq, stringcmp_eq_zero]
      exact (not_and_or.1 asked).imp_right Int.not_le.1
    rw [if_neg asked, if_pos missed]
    rfl

end Answers

/-! ## Complete listings -/

/-- The number of files, or an error for a directory that is not there. -/
def CountsRight (md : Block) (dirname : Name) (result : Int) : Prop :=
  if dirname = [] then result = (usedEntries md).length else result < 0

/-- The call names file `idx`. -/
def NamesFile (md : Block) (dirname : Name) (idx : Int) : Prop :=
  dirname = [] ∧ 0 ≤ idx ∧ idx < (usedEntries md).length

/-- Success and the name of file `idx`, or an error if there is no such file. -/
def ListsRight (md : Block) (dirname : Name) (idx : Int) (result : Int × Name) : Prop :=
  (NamesFile md dirname idx → result.1 = VFS_OK ∧ ∃ j, (usedEntries md)[idx.toNat]? = some j ∧
    result.2 = stringcopy (entryName md j) 16) ∧
  (¬ NamesFile md dirname idx → result.1 < 0)

theorem countsRight_iff (md : Block) (dirname : Name) :
    CountsRight md dirname
      (if dirname = [] then countLoop md FLATFS_MAX_FILES 0 0 else -VFS_NOT_FOUND) ↔
        dirname = [] := by
  unfold CountsRight
  by_cases root : dirname = []
  · simp only [root, if_true, iff_true]
    exact countLoop_eq md
  · simp [root, VFS_NOT_FOUND]

/-- The name that is found is the right one, and the result is an error. -/
theorem listsRight_iff (md : Block) (dirname : Name) (idx : Int) {missing : Int}
    (isError : missing < 0) :
    ListsRight md dirname idx
      ((nameFound md dirname idx).elim (missing, []) fun name => (VFS_ERROR, name)) ↔
        ¬ NamesFile md dirname idx := by
  have isError' : VFS_ERROR < 0 := by decide
  constructor
  · intro right names
    obtain ⟨ok, -⟩ := right.1 names
    cases found : nameFound md dirname idx with
    | none =>
        rw [found] at ok
        exact absurd ok (Int.ne_of_lt isError)
    | some name =>
        rw [found] at ok
        exact absurd ok (Int.ne_of_lt isError')
  · intro missing
    refine ⟨fun names => absurd names missing, fun _ => ?_⟩
    cases nameFound md dirname idx with
    | none => exact isError
    | some name => exact isError'

/-- **Listings.**  In both drivers `filecount` answers as it should for the one directory
only, and `file` for calls that name no file only: the names are found, in slot order,
and reported as errors. -/
theorem directory_listing_iff {s : Flat} {s' : Tfs} (ready : s.Ready) (free : 0 < s.lock)
    (room : 3 ≤ s.totalblocks) (ready' : s'.Ready) (free' : 0 < s'.lock)
    (room' : 3 ≤ s'.totalblocks) (dirname : Name) (idx : CInt) :
    (∀ md, Listed md (usedEntries md)) ∧
    (((flatfsFilecount dirname).Ends s fun result _ => CountsRight (s.blocks 2) dirname result) ↔
        dirname = []) ∧
    (((tfsFilecount dirname).Ends s' fun result _ => CountsRight (s'.blocks 2) dirname result) ↔
        dirname = []) ∧
    (((flatfsFile dirname idx).Ends s fun result _ =>
        ListsRight (s.blocks 2) dirname idx.val result) ↔
      ¬ NamesFile (s.blocks 2) dirname idx.val) ∧
    (((tfsFile dirname idx).Ends s' fun result _ =>
        ListsRight (s'.blocks 2) dirname idx.val result) ↔
      ¬ NamesFile (s'.blocks 2) dirname idx.val) := by
  refine ⟨usedEntries_listed, ?_, ?_, ?_, ?_⟩
  · obtain ⟨t, -, ran⟩ := flatfsFilecount_ran dirname ready free room
    rw [Prog.ends_iff ran, countsRight_iff]
  · obtain ⟨t, -, ran⟩ := tfsFilecount_ran dirname ready' free' room'
    rw [Prog.ends_iff ran, countsRight_iff]
  · obtain ⟨t, -, ran⟩ := flatfsFile_ran dirname idx ready free room
    rw [Prog.ends_iff ran, listsRight_iff _ _ _ (by decide)]
  · obtain ⟨t, -, ran⟩ := tfsFile_ran dirname idx ready' free' room'
    rw [Prog.ends_iff ran, listsRight_iff _ _ _ (by decide)]

/-! ## A directory with one file -/

/-- Its inode is block 3, and its name has one letter. -/
def oneFile (b i : Nat) : Word :=
  if b = 2 ∧ i = 0 then 3#32 else if b = 2 ∧ i = 1 then 0x6c000000#32 else 0#32

def flatOneFile : Flat := Volume.idle 5 oneFile

def tfsOneFile : Tfs := Volume.idle 5 oneFile

theorem directory_listing_oneFile :
    ((flatfsFile [] ⟨2, by decide⟩).Ends flatOneFile fun result _ =>
        ListsRight (flatOneFile.blocks 2) [] 2 result) ↔
      ¬ NamesFile (flatOneFile.blocks 2) [] 2 :=
  (directory_listing_iff (Volume.ready_idle (by decide) _) (by decide) (by decide)
    (show tfsOneFile.Ready from Volume.ready_idle (by decide) _) (by decide) (by decide) []
    ⟨2, by decide⟩).2.2.2.1

/-- The only file is listed as an error, and a directory that is not there has five files. -/
theorem directory_listing_wrong :
    ¬ ((flatfsFile [] ⟨0, by decide⟩).Ends flatOneFile fun result _ =>
        ListsRight (flatOneFile.blocks 2) [] 0 result) ∧
      ¬ ((tfsFile [] ⟨0, by decide⟩).Ends tfsOneFile fun result _ =>
        ListsRight (tfsOneFile.blocks 2) [] 0 result) ∧
      ¬ ((flatfsFilecount [rightBracket]).Ends flatOneFile fun result _ =>
        CountsRight (flatOneFile.blocks 2) [rightBracket] result) ∧
      ¬ (tfsFilecount [rightBracket]).Ends tfsOneFile fun result _ =>
        CountsRight (tfsOneFile.blocks 2) [rightBracket] result := by
  have flat : flatOneFile.Ready := Volume.ready_idle (by decide) _
  have tfs : tfsOneFile.Ready := Volume.ready_idle (by decide) _
  have names : NamesFile (flatOneFile.blocks 2) [] 0 := ⟨rfl, by decide, by decide⟩
  refine ⟨?_, ?_, ?_, ?_⟩
  · obtain ⟨t, -, ran⟩ := flatfsFile_ran [] ⟨0, by decide⟩ flat (by decide) (by decide)
    rw [Prog.ends_iff ran, listsRight_iff _ _ _ (by decide)]
    exact fun missing => missing names
  · obtain ⟨t, -, ran⟩ := tfsFile_ran [] ⟨0, by decide⟩ tfs (by decide) (by decide)
    rw [Prog.ends_iff ran, listsRight_iff _ _ _ (by decide)]
    exact fun missing => missing names
  · obtain ⟨t, -, ran⟩ := flatfsFilecount_ran [rightBracket] flat (by decide) (by decide)
    rw [Prog.ends_iff ran, countsRight_iff]
    decide
  · obtain ⟨t, -, ran⟩ := tfsFilecount_ran [rightBracket] tfs (by decide) (by decide)
    rw [Prog.ends_iff ran, countsRight_iff]
    decide

end Buenos.Fs
