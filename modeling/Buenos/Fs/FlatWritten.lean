/-
# Fs.FlatWritten -- a FlatFS file after a write

What a write does when the blocks it needs are free.  The file is enlarged in the buffers
(`Enlarged`), by its first block, its double-indirect block and what `flatfs_alloc_blocks`
adds; then the loop stores data in blocks of the file only, and the inode gets its new size.
`FlatWritten` is the result on the disk, and it keeps the image consistent.
-/
import Buenos.Fs.FlatData
import Buenos.Fs.FlatWrite

namespace Buenos.Fs

open Buenos.Lib Buenos.Theory

set_option autoImplicit false

namespace Volume

variable {s t u v : Flat} {j k m : Nat} {first data tabs dbl : List Nat}

/-! ## The first block and the double-indirect block -/

/-- The blocks `new` were taken, `data` of them for the end of the file, and nothing but them
was written. -/
structure Staged (s t : Flat) (k k' : Nat) (data new : List Nat) : Prop where
  took : Took s t new
  file : Consistent t k'
  tail : Tail t k'
  blocks : t.fileBlocks k' = s.fileBlocks k ++ data
  tables : t.fileTables k' = s.fileTables k
  kept : ∀ x, x ∉ new → t.blocks x = s.blocks x
  size : t.buffer .inode 0 = s.buffer .inode 0

theorem Staged.refl (file : Consistent s k) (tail : Tail s k) : Staged s s k k [] [] where
  took := .refl s
  file := file
  tail := tail
  blocks := (List.append_nil _).symm
  tables := rfl
  kept := fun _ _ => rfl
  size := rfl

theorem Staged.trans {new new' : List Nat} {k' m : Nat} (before : Staged s t k k' data new)
    (after : Staged t u k' m [] new') : Staged s u k m data (new ++ new') where
  took := before.took.append after.took
  file := after.file
  tail := after.tail
  blocks := by rw [after.blocks, before.blocks, List.append_nil]
  tables := after.tables.trans before.tables
  kept := fun x absent => by
    rw [List.mem_append, not_or] at absent
    rw [after.kept x absent.2, before.kept x absent.1]
  size := after.size.trans before.size

/-- An empty file gets its first block. -/
theorem staged_first (file : Consistent s 0) (tail : Tail s 0)
    (filled : Filled s t .inode (directWord 0) first) (one : first.length = 1) :
    Staged s t 0 1 first first := by
  have past : (fun i => if directWord (1 + 0) ≤ i ∧ i < directWord 7 then 0
      else t.buffer .inode i) = t.buffer .inode := by
    funext i
    unfold directWord
    split
    · rename_i inside
      have zero := tail (i - 1) (Nat.zero_le _) (by omega)
      rw [directWord, show 1 + (i - 1) = i by omega] at zero
      rw [filled.words i (.inr (by rw [one, directWord]; omega)), zero]
    · rfl
  obtain ⟨grown, sound, tail'⟩ := grown_direct file.sound (by decide : 0 + 1 ≤ 7) one filled
    (v := t) (by rw [past, setBuffer, Function.update_eq_self])
  have took := grown.took
  exact
    { took := filled.took
      file := file.add took took.nodup (fun _ mem => mem) grown.blocks grown.tables sound (by decide)
      tail := tail'
      blocks := grown.blocks
      tables := by rw [← List.append_nil (s.fileTables 0), ← grown.tables]
      kept := filled.kept
      size := filled.words 0 (.inl (by decide)) }

/-- A file that does not have a double-indirect block yet gets one. -/
theorem staged_double (file : Consistent s k) (tail : Tail s k) (low : k ≤ 135)
    (filled : Filled s t .inode dblIndirWord dbl) : Staged s t k k [] dbl := by
  have direct : ∀ w, w < 9 → t.buffer .inode w = s.buffer .inode w := fun w less =>
    filled.words w (.inl less)
  have few : tables k ≤ 1 := by
    unfold tables
    omega
  have table : ∀ c, c < 1 → t.fileTable c = s.fileTable c := by
    intro c less
    obtain rfl := Nat.lt_one_iff.1 less
    exact direct indirWord (by decide)
  have kept : ∀ x ∈ s.fileTables k, t.blocks x = s.blocks x := fun x mem =>
    filled.kept x (filled.took.not_marked (file.sound.known x mem).2.2)
  have tablesEq : t.fileTables k = s.fileTables k :=
    tabled_congr fun c less => table c (Nat.lt_of_lt_of_le less few)
  have blocksEq : t.fileBlocks k = s.fileBlocks k :=
    mapped_congr (blockAt_congr (fun i small _ => direct _ (by unfold directWord; omega))
      (fun c less => table c (Nat.lt_of_lt_of_le less few)) kept)
  have limit : limitOf k = 1 := if_pos low
  have sound : Sound t k (limitOf k) :=
    { system := fun b small => filled.took.keeps (file.sound.system b small)
      nodup := by rw [tablesEq]; exact file.sound.nodup
      known := fun b mem => by
        rw [tablesEq] at mem
        obtain ⟨positive, inside, marked⟩ := file.sound.known b mem
        exact ⟨positive, by rw [filled.took.same.totalblocks]; exact inside,
          filled.took.keeps marked⟩
      rest := fun c late within => by
        rw [table c (by omega)]
        exact file.sound.rest c late within
      slots := fun c less => by
        have mem : (s.fileTable c).toNat ∈ s.fileTables k := mem_tabled.2 ⟨c, less, rfl⟩
        rw [table c (Nat.lt_of_lt_of_le less few), kept _ mem]
        exact file.sound.slots c less }
  have blocks : t.fileBlocks k = s.fileBlocks k ++ [] := by rw [blocksEq, List.append_nil]
  exact
    { took := filled.took
      file := file.add filled.took (show ([] ++ [] : List Nat).Nodup from List.nodup_nil)
        (fun x mem => absurd mem List.not_mem_nil) blocks (by rw [tablesEq, List.append_nil]) sound
        file.bound
      tail := fun i late small => by
        rw [direct _ (by unfold directWord; omega)]
        exact tail i late small
      blocks := blocks
      tables := tablesEq
      kept := filled.kept
      size := filled.words 0 (.inl (by decide)) }

/-! ## The whole growth -/

/-- `flatfs_alloc_blocks` gives the file the blocks that it still needs. -/
theorem growRest_cases (ready : s.Ready) (room : 3 ≤ s.totalblocks) (file : Consistent s k)
    (some : 0 < k) (le : k ≤ m) (fits : m ≤ FLATFS_MAX_BLOCKS) (tail : Tail s k)
    (single : k = m → m ≤ 135) (double : 135 < m → DoubleReady s k)
    (enough : (m - k) + (tables m - tables k) ≤ s.room) :
    ∃ t data tabs, growRest (m - 1) (k - 1) s = .returned (true, t) ∧
      Extended s t k (m - k) data tabs := by
  have sum : k + (m - k) = m := by omega
  by_cases more : k < m
  · rw [growRest, if_pos (by omega), show m - 1 - (k - 1) = m - k by omega,
      show k - 1 + 1 = k by omega]
    rcases flatfsAllocBlocks_cases ready room file.sound file.above (n := m - k) (by omega)
      (by omega) (by rw [sum]; exact double) with
      ⟨t, data, tabs, ran, extended⟩ | ⟨t, -, short, -⟩
    · refine ⟨t, data, tabs, ?_, extended⟩
      rw [Prog.bind_of_returned ran]
      rfl
    · rw [sum] at short
      omega
  · obtain rfl : k = m := by omega
    rw [growRest, if_neg (Nat.lt_irrefl _), Nat.sub_self]
    obtain ⟨t, ran, extended⟩ := storeBat_extended ready room (.refl s k) file.sound file.above
      tail List.not_mem_nil (.refl s) rfl rfl (fun _ _ => rfl)
      (fun large => absurd (single rfl) (by omega))
    exact ⟨t, [], [], ran, extended⟩

/-- The double-indirect block of a file that has one. -/
def doubles (s : Flat) (k : Nat) : List Nat := if 135 < k then [s.double] else []

/-- The file of `k` blocks has `m` blocks now, and all but its inode is stored. -/
structure Enlarged (s t : Flat) (k m : Nat) (data tabs dbl : List Nat) : Prop where
  took : Took s t (data ++ (tabs ++ dbl))
  located : Located t m
  spread : Spread t m
  blocks : t.fileBlocks m = s.fileBlocks k ++ data
  tables : t.fileTables m = s.fileTables k ++ tabs
  double : t.doubles m = s.doubles k ++ dbl
  kept : ∀ x, x ∉ data → x ∉ t.fileTables m → x ∉ t.doubles m → x ≠ 1 → t.blocks x = s.blocks x
  size : t.buffer .inode 0 = s.buffer .inode 0
  bitmap : t.blocks 1 = t.buffer .bat

/-- What `flatfs_write` takes itself: the file is ready for `flatfs_alloc_blocks`. -/
theorem staged_of_filled (file : Consistent s k) (spread : Spread s k)
    (large : 135 < k → DoubleReady s k) (more : k < m)
    (firstCount : first.length = if k = 0 then 1 else 0)
    (filled : Filled s t .inode (directWord 0) first) (firstNone : k ≠ 0 → t = s)
    (dblCount : dbl.length = if k ≤ 135 ∧ 135 < m then 1 else 0)
    (filled' : Filled t u .inode dblIndirWord dbl) (dblNone : ¬ (k ≤ 135 ∧ 135 < m) → u = t) :
    Staged s u k (max k 1) first (first ++ dbl) ∧ (135 < m → DoubleReady u (max k 1)) ∧
      u.doubles m = s.doubles k ++ dbl ∧ (m ≤ 135 → u.buffer .inode dblIndirWord = 0) := by
  have stage : Staged s t k (max k 1) first first := by
    by_cases empty : k = 0
    · subst empty
      exact staged_first file spread.tail filled firstCount
    · rw [if_neg empty] at firstCount
      obtain rfl := List.length_eq_zero_iff.1 firstCount
      obtain rfl := firstNone empty
      rw [Nat.max_eq_left (Nat.pos_of_ne_zero empty)]
      exact .refl file spread.tail
  unfold doubles
  by_cases new : k ≤ 135 ∧ 135 < m
  · rw [if_pos new] at dblCount
    have low : max k 1 ≤ 135 := by omega
    have stage' := staged_double stage.file stage.tail low filled'
    obtain ⟨isDouble, readyDouble⟩ := new_doubleReady stage.file.sound.system filled' dblCount low
      fun b mem => by
        rw [stage'.tables] at mem
        exact (stage.file.sound.known b mem).2.2
    refine ⟨stage.trans stage', fun _ => readyDouble, ?_, fun few => by omega⟩
    rw [if_pos new.2, if_neg (by omega), List.nil_append, isDouble]
  · rw [if_neg new] at dblCount
    obtain rfl := List.length_eq_zero_iff.1 dblCount
    obtain rfl := dblNone new
    rw [List.append_nil]
    refine ⟨stage, fun long => ?_, ?_, fun few => ?_⟩
    · obtain rfl := firstNone (by omega)
      rw [Nat.max_eq_left (by omega)]
      exact large (by omega)
    · rw [List.append_nil]
      by_cases long : 135 < m
      · obtain rfl := firstNone (by omega)
        rw [if_pos long, if_pos (by omega)]
      · rw [if_neg long, if_neg (by omega)]
    · rw [filled.words dblIndirWord (.inr ?_)]
      · exact spread.none (by omega)
      · unfold directWord dblIndirWord
        split at firstCount <;> omega

/-- There are enough blocks if, after the first ones, enough are left for the rest. -/
theorem enough_after {room left : Nat} (more : k < m)
    (taken : room = left + ((if k = 0 then 1 else 0) + if k ≤ 135 ∧ 135 < m then 1 else 0)) :
    (m - k) + (Fs.tables m - Fs.tables k) + (if k ≤ 135 ∧ 135 < m then 1 else 0) ≤ room ↔
      (m - max k 1) + (Fs.tables m - Fs.tables (max k 1)) ≤ left := by
  have same : Fs.tables (max k 1) = Fs.tables k := by
    unfold Fs.tables
    omega
  rw [same]
  split_ifs at taken ⊢ <;> omega

/-- The rest of the growth, from there on. -/
theorem enlarged_of_stage (ready : t.Ready) (room : 3 ≤ t.totalblocks)
    (stage : Staged s t k (max k 1) first (first ++ dbl))
    (double : 135 < m → DoubleReady t (max k 1)) (doublesEq : t.doubles m = s.doubles k ++ dbl)
    (none : m ≤ 135 → t.buffer .inode dblIndirWord = 0) (more : k < m)
    (fits : m ≤ FLATFS_MAX_BLOCKS)
    (enough : (m - max k 1) + (tables m - tables (max k 1)) ≤ t.room) :
    ∃ u data tabs, growRest (m - 1) (k - 1) t = .returned (true, u) ∧
      Enlarged s u k m (first ++ data) tabs dbl := by
  have last : max k 1 - 1 = k - 1 := by omega
  have sum : max k 1 + (m - max k 1) = m := by omega
  obtain ⟨u, data, tabs, ran, extended⟩ := growRest_cases ready room stage.file (by omega)
    (by omega) fits stage.tail (by omega) double enough
  obtain ⟨file, loaded⟩ := extended.consistent stage.file (by rw [sum]; exact fits)
  have dblWord := extended.inode dblIndirWord (.inr (by decide))
  rw [last] at ran
  rw [sum] at file loaded
  have named : u.double = t.double := by
    unfold Volume.double
    rw [dblWord]
  have doubles : u.doubles m = t.doubles m := by
    unfold Volume.doubles
    rw [named]
  have sound := file.sound
  have tail := extended.tail
  have tables := extended.tables
  have blocks := extended.blocks
  have kept := extended.kept
  rw [sum] at tail tables blocks kept
  refine ⟨u, data, tabs, ran, ?_⟩
  exact
    { took := (stage.took.append extended.took).perm (List.perm_iff_count.2 fun b => by
        simp only [List.count_append]
        omega)
      located := file.located
      spread := ⟨fits, tail, sound.rest, sound.slots, loaded, by rw [dblWord]; exact none⟩
      blocks := by rw [blocks, stage.blocks, List.append_assoc]
      tables := by rw [tables, stage.tables]
      double := by rw [doubles, doublesEq]
      kept := fun x notData notTable notDouble notBitmap => by
        rw [List.mem_append, not_or] at notData
        rw [doubles] at notDouble
        rw [kept x notData.2 notTable notBitmap, stage.kept x]
        · rw [List.mem_append, not_or]
          refine ⟨notData.1, fun mem => notDouble ?_⟩
          rw [doublesEq]
          exact List.mem_append_right _ mem
        · rintro long rfl
          exact notDouble (by rw [Volume.doubles, if_pos long]; exact List.mem_singleton_self _)
      size := (extended.inode 0 (.inl rfl)).trans stage.size
      bitmap := extended.bitmap }

/-- A file has no more blocks than the volume. -/
theorem Fetched.count_le (image : FlatImage s.totalblocks s.blocks) (fetched : Fetched s j) :
    flatCount (s.buffer .inode) ≤ s.totalblocks := by
  have nodup := (List.nodup_append.1 (fetched.nodup image)).1
  have within : flatData s.blocks (s.buffer .inode) ⊆ List.range s.totalblocks := fun x mem =>
    List.mem_range.2 (fetched.part image (data_mem_parts mem)).2.1
  have short := (List.subperm_of_subset nodup within).length_le
  rwa [flatData, mapped_length, List.length_range] at short

section Growth

variable {datasize offset : CInt} (ready : s.Ready) (room : 3 ≤ s.totalblocks)
  (image : FlatImage s.totalblocks s.blocks) (fetched : Fetched s j)
  (inside : WriteInside (s.buffer .inode) datasize offset)

include ready image fetched

theorem writeEnd_le
    (enough : writeNeed (s.buffer .inode) datasize offset ≤ free (s.blocks 1) s.totalblocks) :
    writeEnd datasize offset ≤ FLATFS_MAX_BLOCKS := by
  have small := ready.small
  have count := fetched.count_le image
  have most := free_le (s.blocks 1) s.totalblocks
  unfold writeNeed at enough
  unfold FLATFS_MAX_BLOCKS FLATFS_BLOCKS_DIRECT FLATFS_BLOCKS_SINDIR FLATFS_BLOCKS_DINDIR
  omega

include room inside

/-- **A write past the end** enlarges the file when the blocks it needs are free. -/
theorem writeGrow_enlarged (more : flatCount (s.buffer .inode) < writeEnd datasize offset)
    (enough : writeNeed (s.buffer .inode) datasize offset ≤ free (s.blocks 1) s.totalblocks) :
    ∃ t data tabs dbl, writeGrow (finalBlock datasize offset) s = .returned (true, t) ∧
      Enlarged (s.didRead 1 .bat) t (flatCount (s.buffer .inode)) (writeEnd datasize offset)
        data tabs dbl := by
  have fits := writeEnd_le ready image fetched enough
  have final := inside.final
  have fetched' : Fetched (s.didRead 1 FlatBuffer.bat) j :=
    ⟨fetched.used, by simpa using fetched.inode, by simpa using fetched.di⟩
  have inode : (s.didRead 1 FlatBuffer.bat).buffer .inode = s.buffer .inode := by simp
  have bat : (s.didRead 1 FlatBuffer.bat).buffer .bat = (s.didRead 1 FlatBuffer.bat).blocks 1 := by
    simp
  have file := consistent_of_image (s := s.didRead 1 FlatBuffer.bat) image fetched' bat
  have spread := fetched'.spread (s := s.didRead 1 FlatBuffer.bat) image
  have large := doubleReady_of_image (s := s.didRead 1 FlatBuffer.bat) image fetched' bat
  have roomEq : (s.didRead 1 FlatBuffer.bat).room = free (s.blocks 1) s.totalblocks := by
    simp [Volume.room]
  rw [inode] at file spread large
  have mono := tables_mono (Nat.le_of_lt more)
  rcases writeGrow_cases ready room inside more with
    ⟨t, -, short, -⟩ | ⟨t, u, first, dbl, grow, -, firstCount, filled, firstNone, dblCount, filled',
      dblNone⟩
  · unfold writeNeed at enough
    unfold writeFirst at short
    split_ifs at enough short <;> omega
  · obtain ⟨stage, double, doublesEq, none⟩ := staged_of_filled file spread large more firstCount
      filled firstNone dblCount filled' dblNone
    have took := stage.took
    have room' := took.room
    rw [List.length_append, firstCount, dblCount, roomEq] at room'
    obtain ⟨v, data, tabs, ran, enlarged⟩ := enlarged_of_stage
      ((ready.same (.didRead 1 FlatBuffer.bat)).same took.same)
      (by rw [took.same.totalblocks]; exact room) stage double doublesEq none more fits
      ((enough_after more room').1 enough)
    refine ⟨v, _, tabs, dbl, ?_, enlarged⟩
    rw [grow, ← ran]
    congr 2
    omega

end Growth

/-! ## Ready for the loop -/

/-- The buffers hold a file of `m` blocks that owns what the file with inode `ino` owned and
the blocks `new`; everything but the inode is on the disk. -/
structure Prepared (n : Nat) (blocks : Nat → Block) (ino : Block) (t : Flat) (m : Nat)
    (new : List Nat) : Prop where
  located : Located t m
  spread : Spread t m
  owned : (t.fileBlocks m ++ (t.fileTables m ++ t.doubles m)).Perm (flatParts blocks ino ++ new)
  nodup : new.Nodup
  fresh : ∀ x ∈ new, x < n ∧ ¬ Marked blocks x
  marks : ∀ x, Marked t.blocks x ↔ Marked blocks x ∨ x ∈ new
  kept : ∀ x, x ∉ t.fileBlocks m ++ (t.fileTables m ++ t.doubles m) → x ≠ 1 →
    t.blocks x = blocks x
  size : t.buffer .inode 0 = ino 0

theorem doubles_eq (s : Flat) :
    s.doubles (flatCount (s.buffer .inode)) = flatDouble (s.buffer .inode) := rfl

/-- A file that does not grow. -/
theorem Fetched.prepared (image : FlatImage s.totalblocks s.blocks) (fetched : Fetched s j) :
    Prepared s.totalblocks s.blocks (s.buffer .inode) s (flatCount (s.buffer .inode)) [] where
  located := fetched.located image
  spread := fetched.spread image
  owned := by
    rw [fetched.fileBlocks, fetched.fileTables, List.append_nil]
    exact .refl _
  nodup := List.nodup_nil
  fresh := fun _ mem => absurd mem List.not_mem_nil
  marks := fun x => (or_iff_left List.not_mem_nil).symm
  kept := fun _ _ _ => rfl
  size := rfl

/-- One that has grown. -/
theorem Enlarged.prepared {n : Nat} (small : n ≤ 4096) (total : s.totalblocks = n)
    (fetched : Fetched s j) (bat : s.buffer .bat = s.blocks 1)
    (enlarged : Enlarged s t (flatCount (s.buffer .inode)) m data tabs dbl) :
    Prepared n s.blocks (s.buffer .inode) t m (data ++ (tabs ++ dbl)) where
  located := enlarged.located
  spread := enlarged.spread
  owned := by
    rw [enlarged.blocks, enlarged.tables, enlarged.double, fetched.fileBlocks, fetched.fileTables,
      doubles_eq]
    refine List.perm_iff_count.2 fun b => ?_
    simp only [flatParts, List.count_append]
    omega
  nodup := enlarged.took.nodup
  fresh := fun x mem => by
    obtain ⟨inside, clear⟩ := enlarged.took.fresh x mem
    refine ⟨total ▸ inside, fun marked => ?_⟩
    rw [Volume.marked, bat, marked.2] at clear
    cases clear
  marks := fun x => by
    have taken := enlarged.took.marked x
    rw [Volume.marked, Volume.marked, bat] at taken
    rw [Marked, Marked, enlarged.bitmap, taken]
    constructor
    · rintro ⟨bound, old | new⟩
      · exact .inl ⟨bound, old⟩
      · exact .inr new
    · rintro (⟨bound, old⟩ | new)
      · exact ⟨bound, .inl old⟩
      · have inside := (enlarged.took.fresh x new).1
        exact ⟨by omega, .inr new⟩
  kept := fun x absent notBitmap => by
    simp only [List.mem_append, not_or] at absent
    by_cases new : x ∈ data
    · rw [enlarged.blocks, List.mem_append, not_or] at absent
      exact absurd new absent.1.2
    · exact enlarged.kept x new absent.2.1 absent.2.2 notBitmap
  size := enlarged.size

/-- The blocks that a file has stay its first blocks when it grows. -/
theorem fileBlock_of_append {b : Nat} (blocks : t.fileBlocks m = s.fileBlocks k ++ data)
    (less : b < k) (le : k ≤ m) : t.fileBlock b = s.fileBlock b := by
  apply BitVec.eq_of_toNat_eq
  have same : (t.fileBlocks m)[b]? = (s.fileBlocks k)[b]? := by
    rw [blocks, List.getElem?_append_left (by simpa [fileBlocks] using less)]
  simpa [fileBlocks, mapped, fileBlock, less, Nat.lt_of_lt_of_le less le] using same

/-- The old blocks of a file that has grown: they are where they were, and hold what they held. -/
theorem Enlarged.old {n b : Nat} (image : FlatImage n s.blocks) (fetched : Fetched s j)
    (bat : s.buffer .bat = s.blocks 1)
    (enlarged : Enlarged s t (flatCount (s.buffer .inode)) m data tabs dbl)
    (le : flatCount (s.buffer .inode) ≤ m) (less : b < flatCount (s.buffer .inode)) :
    t.fileBlock b = s.fileBlock b ∧
      t.blocks (s.fileBlock b).toNat = s.blocks (s.fileBlock b).toNat := by
  have same := fileBlock_of_append enlarged.blocks less le
  have listed := fileBlock_mem (s := s) less
  have inParts : (s.fileBlock b).toNat ∈ flatParts s.blocks (s.buffer .inode) := by
    rw [fetched.fileBlocks] at listed
    exact data_mem_parts listed
  obtain ⟨above, -, marked⟩ := fetched.part image inParts
  have notNew := enlarged.took.not_marked (b := (s.fileBlock b).toNat) (by
    rw [Volume.marked, bat]
    exact marked)
  simp only [List.mem_append, not_or] at notNew
  refine ⟨same, enlarged.kept _ notNew.1 (fun table => ?_) (fun double => ?_) (by omega)⟩
  · refine enlarged.located.apart ?_ table
    rw [← same]
    exact fileBlock_mem (Nat.lt_of_lt_of_le less le)
  · rw [enlarged.double, List.mem_append] at double
    rcases double with old | new
    · rw [fetched.fileBlocks] at listed
      exact (List.nodup_append.1 (fetched.nodup image)).2.2 _ listed _
        (List.mem_append_right _ old) rfl
    · exact notNew.2.2 new

/-- **With or without growth**, the file is ready for the loop, and its old blocks are the same. -/
theorem writeGrow_prepared {datasize offset : CInt} (ready : s.Ready) (room : 3 ≤ s.totalblocks)
    (image : FlatImage s.totalblocks s.blocks) (fetched : Fetched s j)
    (inside : WriteInside (s.buffer .inode) datasize offset)
    (enough : writeNeed (s.buffer .inode) datasize offset ≤ free (s.blocks 1) s.totalblocks) :
    ∃ t new, writeGrow (finalBlock datasize offset) s = .returned (true, t) ∧ Volume.Same s t ∧
      Prepared s.totalblocks s.blocks (s.buffer .inode) t
        (max (flatCount (s.buffer .inode)) (writeEnd datasize offset)) new ∧
      (flatCount (s.buffer .inode) < writeEnd datasize offset ∨ t = s) ∧
      t.refused = s.refused ∧
      ∀ b < flatCount (s.buffer .inode), t.fileBlock b = s.fileBlock b ∧
        t.blocks (s.fileBlock b).toNat = s.blocks (s.fileBlock b).toNat := by
  by_cases more : flatCount (s.buffer .inode) < writeEnd datasize offset
  · obtain ⟨t, data, tabs, dbl, ran, enlarged⟩ :=
      writeGrow_enlarged ready room image fetched inside more enough
    have fetched' : Fetched (s.didRead 1 FlatBuffer.bat) j :=
      ⟨fetched.used, by simpa using fetched.inode, by simpa using fetched.di⟩
    have enlarged' : Enlarged (s.didRead 1 FlatBuffer.bat) t
        (flatCount ((s.didRead 1 FlatBuffer.bat).buffer .inode)) (writeEnd datasize offset)
        data tabs dbl := by simpa using enlarged
    have total : (s.didRead 1 FlatBuffer.bat).totalblocks = s.totalblocks := rfl
    have prepared := enlarged'.prepared ready.small total fetched' (by simp)
    have inode : (s.didRead 1 FlatBuffer.bat).buffer .inode = s.buffer .inode := by simp
    have place : ∀ b, (s.didRead 1 FlatBuffer.bat).fileBlock b = s.fileBlock b := fun b => by
      unfold fileBlock
      simp
    rw [Nat.max_eq_right (Nat.le_of_lt more)]
    refine ⟨t, data ++ (tabs ++ dbl), ran, (Same.didRead 1 FlatBuffer.bat).trans enlarged.took.same,
      by simpa using prepared, .inl more, enlarged.took.refused, fun b less => ?_⟩
    have image' : FlatImage s.totalblocks (s.didRead 1 FlatBuffer.bat).blocks := image
    have old := enlarged'.old (b := b) image' fetched' (by simp)
      (by rw [inode]; exact Nat.le_of_lt more) (by rw [inode]; exact less)
    rw [place] at old
    exact old
  · rw [Nat.max_eq_left (Nat.le_of_not_lt more)]
    exact ⟨s, [], writeGrow_none inside more, .refl s, fetched.prepared image, .inr rfl, rfl,
      fun _ _ => ⟨rfl, rfl⟩⟩

/-! ## The loop and the size -/

/-- The inode of a file that was written up to byte `size`. -/
def resized (ino : Block) (size : Nat) : Block :=
  if (ino 0).toNat < size then Function.update ino 0 (BitVec.ofNat 32 size) else ino

theorem resized_word (ino : Block) (size : Nat) {w : Nat} (later : w ≠ 0) :
    resized ino size w = ino w := by
  unfold resized
  split
  · rw [Function.update_of_ne later]
  · rfl

/-- **The rest of the call** stores the data in blocks of the file, and the inode. -/
theorem writeRest_stored {datasize offset : CInt} {fileid : Word} {off n : Nat} (ready : s.Ready)
    (file : Located s m) (loaded : Loaded s m) (nodup : (s.fileBlocks m).Nodup)
    (count : datasize.val = n) (start : offset.val = off) (positive : 0 < n)
    (first : Fs.firstBlock offset = off / 512) (final : finalBlock datasize offset = (off + n - 1) / 512)
    (inside : (off + n - 1) / 512 < m) (within : fileid.toNat < s.totalblocks)
    (notData : fileid.toNat ∉ s.fileBlocks m)
    (same : ¬ (s.buffer .inode 0).toNat < toUint32 (offset.val + datasize.val) →
      s.blocks fileid.toNat = s.buffer .inode) (buffer : Nat → Byte) :
    ∃ t, writeRest fileid buffer datasize offset true s =
        .returned (datasize.val, { t with lock := t.lock + 1 }) ∧ Volume.Same s t ∧
      t.refused = s.refused ∧
      t.blocks fileid.toNat =
        resized (s.buffer .inode) (toUint32 (offset.val + datasize.val)) ∧
      (∀ x, x ∉ s.fileBlocks m → x ≠ fileid.toNat → t.blocks x = s.blocks x) ∧
      Spliced s.blocks t.blocks s.placeOf m off n buffer := by
  obtain ⟨u, v, ran, looped, along, none, kept, spliced⟩ :=
    writeLoop_moves ready file loaded positive inside nodup buffer
  have step : writeRest fileid buffer datasize offset true s =
      writeSize fileid (toUint32 (offset.val + datasize.val)) datasize.val v := by
    rw [writeRest, if_pos rfl, first, final, Prog.bind_of_returned ran, count, start,
      Prog.bind_of_returned looped]
  have ready' := ready.same along.same
  rw [step, writeSize, Prog.bind_gets_apply, along.inode, Prog.ite_apply]
  unfold resized
  by_cases more : (s.buffer .inode 0).toNat < toUint32 (offset.val + datasize.val)
  · let w : Flat := v.setWord .inode 0 (BitVec.ofNat 32 (toUint32 (offset.val + datasize.val)))
    have same : Volume.Same v w := .setWord _ _ _
    have stored := writeBuffer_ready (ready'.same same) fileid FlatBuffer.inode
      (by rw [same.totalblocks, along.same.totalblocks]; exact within)
    refine ⟨w.didWrite fileid.toNat (w.buffer .inode), ?_,
      along.same.trans (same.trans (.didWrite _ _)), none, ?_, fun x other apart => ?_,
      fun b less p inside => ?_⟩
    · rw [if_pos more, Prog.bind_modify_apply, Prog.bind_of_returned stored]
      rfl
    · rw [if_pos more, didWrite_blocks, Function.update_self, setWord_buffer,
        Function.update_self, along.inode]
    · rw [didWrite_blocks, Function.update_of_ne apart, setWord_blocks]
      exact kept x other
    · have data : s.placeOf b ≠ fileid.toNat := fun h => notData (by
        rw [← h, placeOf_eq loaded less]
        exact fileBlock_mem less)
      rw [didWrite_blocks, Function.update_of_ne data, setWord_blocks]
      exact spliced b less p inside
  · refine ⟨v, by rw [if_neg more]; rfl, along.same, none, ?_, fun x other _ => kept x other,
      spliced⟩
    rw [if_neg more, kept _ notData]
    exact same more

end Volume

/-! ## The image after a write -/

/-- What writing to the file of entry `j` does to the image. -/
structure FlatWritten (n : Nat) (blocks blocks' : Nat → Block) (j : Nat) : Prop where
  used : Used (blocks 2) j
  directory : blocks' 2 = blocks 2
  nodup : (flatSlots blocks' j).Nodup
  fresh : ∀ b ∈ flatSlots blocks' j, b < n ∧ (Marked blocks b → b ∈ flatSlots blocks j)
  grown : ∀ b ∈ flatSlots blocks j, b ∈ flatSlots blocks' j
  marks : ∀ b, Marked blocks' b ↔ Marked blocks b ∨ b ∈ flatSlots blocks' j
  file : FlatFile blocks' (blocks' (inodeOf blocks' j))
  kept : ∀ b, b ∉ flatSlots blocks' j → b ≠ 1 → blocks' b = blocks b

/-- The other entries keep what they own. -/
theorem FlatWritten.others {n : Nat} {blocks blocks' : Nat → Block} {j : Nat}
    (image : FlatImage n blocks) (written : FlatWritten n blocks blocks' j) :
    FlatImage.Others blocks blocks' j := by
  refine ⟨fun k _ _ => by rw [written.directory], fun k ne b mem => ?_⟩
  obtain ⟨low, -, -⟩ := image.owned mem
  refine written.kept b (fun mine => ?_) (by omega)
  exact image.held.apart k j ne mem
    ((written.fresh b mine).2 (image.held.owned k b mem))

/-- **A file that was written** keeps the image consistent. -/
theorem FlatWritten.image' {n : Nat} {blocks blocks' : Nat → Block} {j : Nat}
    (image : FlatImage n blocks) (written : FlatWritten n blocks blocks' j) :
    FlatImage n blocks' := by
  have others := written.others image
  refine image.exchange others written.nodup written.fresh
    (fun b marked _ => (written.marks b).2 (.inl marked))
    (fun b mem => (written.marks b).2 (.inr mem)) (fun _ => written.file) ?_ ?_
  · rw [written.directory]
    exact image.blanked
  · rw [written.directory]
    exact image.terminated

namespace Volume

variable {t : Flat} {k m : Nat} {new : List Nat} {ino : Block}

/-- The map of a file does not depend on its size word. -/
theorem Spread.resized (spread : Spread t m) (size : Nat) :
    Spread (t.setBuffer .inode (Volume.resized (t.buffer .inode) size)) m := by
  have word : ∀ w, w ≠ 0 → (t.setBuffer .inode (Volume.resized (t.buffer .inode) size)).buffer
      .inode w = t.buffer .inode w := fun w later => by
    rw [setBuffer_buffer, Function.update_self, resized_word _ _ later]
  have di : (t.setBuffer .inode (Volume.resized (t.buffer .inode) size)).buffer .di =
      t.buffer .di := by simp
  have table : ∀ c, (t.setBuffer .inode (Volume.resized (t.buffer .inode) size)).fileTable c =
      t.fileTable c := fun c => by
    unfold fileTable tableAt
    rw [di, word indirWord (by decide)]
  refine ⟨spread.bound, fun i late small => ?_, fun c late within => ?_, fun c less => ?_,
    fun large => ?_, fun low => ?_⟩
  · rw [word _ (by unfold directWord; omega)]
    exact spread.tail i late small
  · rw [table]
    exact spread.rest c late within
  · rw [table]
    exact spread.slots c less
  · have loaded := spread.loaded large
    unfold double at loaded ⊢
    rw [di, word dblIndirWord (by decide)]
    exact loaded
  · rw [word _ (by decide)]
    exact spread.none low

/-- The lookup on the disk follows the list of the file's blocks. -/
theorem place_of_listed {blocks : Nat → Block} {b : Nat} (listed : flatData blocks ino = t.fileBlocks m)
    (count : flatCount ino = m) (less : b < m) :
    (resolve blocks ino b).toNat = (t.fileBlock b).toNat := by
  have same := congrArg (fun blocks => blocks[b]?) listed
  rw [resolve_blockAt]
  simpa [flatData, mapped, count, less, fileBlocks, fileBlock, flatDi] using same

section Written

variable {n j : Nat} {blocks blocks' : Nat → Block} (image : FlatImage n blocks)
  (used : Used (blocks 2) j)
  (prepared : Prepared n blocks (blocks (inodeOf blocks j)) t m new)

include image used prepared

/-- The blocks of the file once it has grown. -/
theorem Prepared.parts :
    (inodeOf blocks j :: (t.fileBlocks m ++ (t.fileTables m ++ t.doubles m))).Nodup ∧
      ∀ x ∈ t.fileBlocks m ++ (t.fileTables m ++ t.doubles m), 3 ≤ x := by
  obtain ⟨notPart, nodup⟩ := List.nodup_cons.1 (image.parts_nodup used)
  have mem : ∀ {x}, x ∈ t.fileBlocks m ++ (t.fileTables m ++ t.doubles m) →
      x ∈ flatParts blocks (blocks (inodeOf blocks j)) ∨ x ∈ new := fun mem =>
    List.mem_append.1 (prepared.owned.mem_iff.1 mem)
  refine ⟨List.nodup_cons.2 ⟨fun part => ?_, ?_⟩, fun x part => ?_⟩
  · rcases mem part with old | fresh
    · exact notPart old
    · exact (prepared.fresh _ fresh).2 (image.held.owned j _ (FlatImage.inode_mem used))
  · refine prepared.owned.nodup_iff.2 (List.nodup_append.2 ⟨nodup, prepared.nodup, ?_⟩)
    rintro x old y fresh rfl
    exact (prepared.fresh x fresh).2 (image.held.owned j x (FlatImage.part_mem used old))
  · rcases mem part with old | fresh
    · exact (image.owned (FlatImage.part_mem used old)).1
    · by_contra low
      exact (prepared.fresh x fresh).2 (image.held.reserved x (by omega))

/-- The file on the disk is the one in the buffers, up to its size word. -/
theorem Prepared.stored_file {size : Nat}
    (count : flatCount (resized (t.buffer .inode) size) = m)
    (kept : ∀ x, x ∉ t.fileBlocks m → x ≠ inodeOf blocks j → blocks' x = t.blocks x) :
    FlatFile blocks' (resized (t.buffer .inode) size) ∧
      flatData blocks' (resized (t.buffer .inode) size) = t.fileBlocks m ∧
      flatParts blocks' (resized (t.buffer .inode) size) =
        t.fileBlocks m ++ (t.fileTables m ++ t.doubles m) := by
  obtain ⟨notPart, partsNodup⟩ := List.nodup_cons.1 (prepared.parts image used).1
  obtain ⟨-, -, apart⟩ := List.nodup_append.1 partsNodup
  -- the tables are not data, so the loop has left them alone
  have tableKept : ∀ b ∈ t.fileTables m ++ t.doubles m, blocks' b = t.blocks b := fun b mem =>
    kept b (fun data => apart b data b mem rfl) fun same =>
      notPart (same ▸ List.mem_append_right _ mem)
  let q : Flat := t.setBuffer .inode (resized (t.buffer .inode) size)
  have inode : q.buffer .inode = resized (t.buffer .inode) size := by simp [q]
  have di : q.buffer .di = t.buffer .di := by simp [q]
  have doubles : flatDouble (q.buffer .inode) = t.doubles m := by
    rw [flatDouble, inode, count, resized_word _ _ (by decide)]
    rfl
  have tables : q.fileTables m = t.fileTables m :=
    tabled_congr fun c _ => by
      unfold tableAt
      rw [di, inode, resized_word _ _ (by decide)]
  have data : q.fileBlocks m = t.fileBlocks m :=
    mapped_congr (blockAt_congr
      (fun i _ _ => by rw [inode, resized_word _ _ (by unfold directWord; omega)])
      (fun c _ => by
        unfold tableAt
        rw [di, inode, resized_word _ _ (by decide)]) fun _ _ => rfl)
  have stored := flatFile_of_buffers blocks' (s := q) (prepared.spread.resized size)
    (by rw [inode, count]) (by rw [doubles, tables]; exact tableKept)
  rw [data, tables, doubles, inode] at stored
  exact stored

/-- **The bytes of the file** are those that the loop has left in its blocks. -/
theorem Prepared.byte {size off n q : Nat} {buffer : Nat → Byte}
    (count : flatCount (resized (t.buffer .inode) size) = m)
    (stored : blocks' (inodeOf blocks j) = resized (t.buffer .inode) size)
    (kept : ∀ x, x ∉ t.fileBlocks m → x ≠ inodeOf blocks j → blocks' x = t.blocks x)
    (spliced : Spliced t.blocks blocks' t.placeOf m off n buffer)
    (old : ∀ b < flatCount (blocks (inodeOf blocks j)),
      t.placeOf b = (resolve blocks (blocks (inodeOf blocks j)) b).toNat ∧
        t.blocks (t.placeOf b) = blocks (t.placeOf b))
    (below : q / 512 < m)
    (before : ¬ (off ≤ q ∧ q < off + n) → q / 512 < flatCount (blocks (inodeOf blocks j))) :
    flatByte blocks' (blocks' (inodeOf blocks j)) q =
      if off ≤ q ∧ q < off + n then buffer (q - off)
      else flatByte blocks (blocks (inodeOf blocks j)) q := by
  obtain ⟨-, listed, -⟩ := prepared.stored_file image used count kept
  have place : (resolve blocks' (blocks' (inodeOf blocks j)) (q / 512)).toNat =
      t.placeOf (q / 512) := by
    rw [stored, placeOf_eq prepared.spread.loaded below]
    exact place_of_listed listed count below
  have byte := spliced (q / 512) below (q % 512) (Nat.mod_lt _ (by decide))
  rw [Nat.div_add_mod] at byte
  rw [flatByte, place, byte]
  by_cases new : off ≤ q ∧ q < off + n
  · rw [if_pos new, if_pos new]
  · obtain ⟨same, content⟩ := old _ (before new)
    rw [if_neg new, if_neg new, content, same, flatByte]

/-- **A prepared file**, after the loop and with its inode stored. -/
theorem Prepared.written {size : Nat}
    (count : flatCount (resized (t.buffer .inode) size) = m)
    (stored : blocks' (inodeOf blocks j) = resized (t.buffer .inode) size)
    (kept : ∀ x, x ∉ t.fileBlocks m → x ≠ inodeOf blocks j → blocks' x = t.blocks x) :
    FlatWritten n blocks blocks' j := by
  obtain ⟨nodup, above⟩ := prepared.parts image used
  obtain ⟨low, inside⟩ := image.inode_inside used
  have system : ∀ x, x < 3 → x ∉ t.fileBlocks m ++ (t.fileTables m ++ t.doubles m) :=
    fun x less mem => by
      have := above x mem
      omega
  have directory : blocks' 2 = blocks 2 := by
    rw [kept 2 (fun mem => system 2 (by decide) (List.mem_append_left _ mem)) (by omega),
      prepared.kept 2 (system 2 (by decide)) (by decide)]
  have bitmap : blocks' 1 = t.blocks 1 :=
    kept 1 (fun mem => system 1 (by decide) (List.mem_append_left _ mem)) (by omega)
  have place : inodeOf blocks' j = inodeOf blocks j := by
    unfold inodeOf
    rw [directory]
  have used' : Used (blocks' 2) j := by
    rw [directory]
    exact used
  obtain ⟨file, -, parts⟩ := prepared.stored_file image used count kept
  have slots : flatSlots blocks' j =
      inodeOf blocks j :: (t.fileBlocks m ++ (t.fileTables m ++ t.doubles m)) := by
    rw [FlatImage.slots_used used', place, stored, parts]
  have mem : ∀ x, x ∈ flatSlots blocks' j ↔ x ∈ flatSlots blocks j ∨ x ∈ new := fun x => by
    rw [slots, FlatImage.slots_used used, List.mem_cons, List.mem_cons, prepared.owned.mem_iff,
      List.mem_append, or_assoc]
  have marks : ∀ b, Marked blocks' b ↔ Marked blocks b ∨ b ∈ new := fun b => by
    rw [← prepared.marks, Marked, Marked, bitmap]
  refine
    { used := used
      directory := directory
      nodup := by rw [slots]; exact nodup
      fresh := fun b part => ?_
      grown := fun b old => (mem b).2 (.inl old)
      marks := fun b => ?_
      file := by rw [place, stored]; exact file
      kept := fun b absent notBitmap => ?_ }
  · rcases (mem b).1 part with old | fresh
    · exact ⟨image.inside j b old, fun _ => old⟩
    · exact ⟨(prepared.fresh b fresh).1, fun marked =>
        absurd marked (prepared.fresh b fresh).2⟩
  · rw [marks, mem]
    constructor
    · exact fun either => either.imp_right .inr
    · rintro (old | old | fresh)
      · exact .inl old
      · exact .inl (image.held.owned j b old)
      · exact .inr fresh
  · rw [slots, List.mem_cons, not_or] at absent
    rw [kept b (fun data => absent.2 (List.mem_append_left _ data)) absent.1,
      prepared.kept b absent.2 notBitmap]

end Written

end Volume

/-! ## The call -/

/-- A byte is in one of the blocks that the bytes take. -/
theorem block_lt {q size : Nat} (below : q < size) : q / 512 < blocksOf size := by
  unfold blocksOf
  omega

section Sizes

variable {ino : Block} {datasize offset : CInt} (inside : WriteInside ino datasize offset)
  (fits : writeEnd datasize offset ≤ FLATFS_MAX_BLOCKS)

include inside fits

/-- The end of the write, in the arithmetic of the code. -/
theorem WriteInside.endByte : toUint32 (offset.val + datasize.val) =
    (offset.val + datasize.val).toNat ∧ (offset.val + datasize.val).toNat ≤ 8457728 := by
  have some := inside.some
  have low := inside.low
  unfold writeEnd blocksOf FLATFS_MAX_BLOCKS FLATFS_BLOCKS_DIRECT FLATFS_BLOCKS_SINDIR
    FLATFS_BLOCKS_DINDIR at fits
  unfold toUint32
  omega

/-- The size of the file after the write. -/
theorem WriteInside.resized {t : Flat} (same : t.buffer .inode 0 = ino 0) :
    (Volume.resized (t.buffer .inode) (toUint32 (offset.val + datasize.val)) 0).toNat =
        max (ino 0).toNat (offset.val + datasize.val).toNat ∧
      flatCount (Volume.resized (t.buffer .inode) (toUint32 (offset.val + datasize.val))) =
        max (flatCount ino) (writeEnd datasize offset) := by
  obtain ⟨size, small⟩ := inside.size
  obtain ⟨number, bound⟩ := inside.endByte fits
  have word : (Volume.resized (t.buffer .inode) (toUint32 (offset.val + datasize.val)) 0).toNat =
      max (ino 0).toNat (offset.val + datasize.val).toNat := by
    rw [number]
    unfold Volume.resized
    rw [same]
    split
    · rw [Function.update_self, BitVec.toNat_ofNat]
      omega
    · rw [same]
      omega
  refine ⟨word, ?_⟩
  rw [inside.count, flatCount, fileSize, word, toInt32_eq (by omega) (by omega)]
  unfold writeEnd blocksOf
  omega

/-- The last block written belongs to the file that is written. -/
theorem WriteInside.final_lt :
    finalBlock datasize offset < max (flatCount ino) (writeEnd datasize offset) := by
  have positive := inside.positive
  rcases inside.final with final | ⟨beyond, -⟩
  · exact lt_max_of_lt_right (by omega)
  · exact absurd fits (Nat.not_le_of_lt beyond)

/-- The write in natural numbers. -/
theorem WriteInside.range : ∃ off n : Nat, offset.val = off ∧ datasize.val = n ∧ 0 < n ∧
    firstBlock offset = off / 512 ∧ finalBlock datasize offset = (off + n - 1) / 512 := by
  have some := inside.some
  obtain ⟨off, begins⟩ := Int.eq_ofNat_of_zero_le inside.low
  obtain ⟨n, count⟩ := Int.eq_ofNat_of_zero_le (Int.le_of_lt some)
  refine ⟨off, n, begins, count, by omega, ?_, ?_⟩
  · rw [firstBlock, begins]
    exact Volume.firstBlock off
  · have final := inside.final
    unfold writeEnd blocksOf at final fits
    omega

/-- A file that needs more blocks gets a new size. -/
theorem WriteInside.size_lt (more : flatCount ino < writeEnd datasize offset) :
    (ino 0).toNat < toUint32 (offset.val + datasize.val) := by
  rw [(inside.endByte fits).1]
  rw [inside.count] at more
  unfold writeEnd blocksOf at more
  omega

end Sizes

section Calls

variable {s : Flat} (mounted : FlatMounted s) {j : Nat} (used : Used (s.blocks 2) j)
  {fileid : CInt} (isFile : fileid.val = inodeOf s.blocks j) {datasize offset : CInt}
  (inside : WriteInside (s.blocks (inodeOf s.blocks j)) datasize offset)

include mounted used isFile inside

/-- **`flatfs_write`** of what fits: the file has grown if it had to, nothing but its own blocks
and the bitmap has changed, and the data is in it. -/
theorem flatfsWrite_stored (buffer : Nat → Byte)
    (enough : writeNeed (s.blocks (inodeOf s.blocks j)) datasize offset ≤
      Lib.free (s.blocks 1) s.totalblocks) :
    ∃ t, flatfsWrite fileid buffer datasize offset s = .returned (datasize.val, t) ∧
      Volume.Same s t ∧ t.refused = s.refused ∧
      FlatWritten s.totalblocks s.blocks t.blocks j ∧
      (t.blocks (inodeOf s.blocks j) 0).toNat = max (s.blocks (inodeOf s.blocks j) 0).toNat
        (offset.val + datasize.val).toNat ∧
      ∀ q < max (s.blocks (inodeOf s.blocks j) 0).toNat (offset.val + datasize.val).toNat,
        flatByte t.blocks (t.blocks (inodeOf s.blocks j)) q =
          if offset.val.toNat ≤ q ∧ q < (offset.val + datasize.val).toNat then
            buffer (q - offset.val.toNat)
          else flatByte s.blocks (s.blocks (inodeOf s.blocks j)) q := by
  have image := mounted.image
  obtain ⟨above, within⟩ := image.inode_inside used
  have small := mounted.ready.small
  obtain ⟨v, step, same, disk, none, fetched⟩ := flatfsWrite_start mounted used isFile buffer inside
  have total := same.totalblocks
  rw [Volume.locked_totalblocks] at total
  have inode := fetched.inode
  have ready := mounted.ready.locked.same same
  have image' : FlatImage v.totalblocks v.blocks := by
    rw [total, disk]
    exact image
  have word := fileid_toNat isFile (Nat.lt_of_lt_of_le within small)
  rw [disk] at inode
  rw [← inode] at inside enough
  have fits := Volume.writeEnd_le ready image' fetched (by rw [disk, total]; exact enough)
  obtain ⟨t, new, grow, same', prepared, keeps, none', old⟩ := Volume.writeGrow_prepared ready
    (by rw [total]; exact mounted.room) image' fetched inside (by rw [disk, total]; exact enough)
  have size := prepared.size
  obtain ⟨sizeWord, count⟩ := inside.resized fits size
  obtain ⟨off, n, begins, length, positive, first, final⟩ := inside.range fits
  have last := inside.final_lt fits
  have unsized : ¬ (t.buffer .inode 0).toNat < toUint32 (offset.val + datasize.val) →
      t.blocks (BitVec.ofInt 32 fileid.val).toNat = t.buffer .inode := fun fixed => by
    rw [size] at fixed
    rcases keeps with more | rfl
    · exact absurd (inside.size_lt fits more) fixed
    · rw [word, disk]
      exact inode.symm
  have whole := inside.size
  have counted := inside.count
  rw [total, disk, inode] at prepared
  rw [inode] at sizeWord count size last old whole counted
  obtain ⟨nodup, -⟩ := prepared.parts image used
  obtain ⟨notPart, partsNodup⟩ := List.nodup_cons.1 nodup
  have onVolume : (BitVec.ofInt 32 fileid.val).toNat < t.totalblocks := by
    rw [word, same'.totalblocks, total]
    exact within
  have notData : (BitVec.ofInt 32 fileid.val).toNat ∉
      t.fileBlocks (max (flatCount (s.blocks (inodeOf s.blocks j))) (writeEnd datasize offset)) := by
    rw [word]
    exact fun mem => notPart (List.mem_append_left _ mem)
  rw [final] at last
  obtain ⟨u, ran, same'', none'', stored, kept, spliced⟩ := Volume.writeRest_stored
    (ready.same same') prepared.located prepared.spread.loaded (List.nodup_append.1 partsNodup).1
    length begins positive first final last onVolume notData unsized buffer
  rw [word] at stored kept
  refine ⟨{ u with lock := u.lock + 1 }, ?_, ((same.trans same').trans same'').unlock,
    none''.trans (none'.trans none), prepared.written image used count stored kept, ?_,
    fun q below => ?_⟩
  · rw [step, Prog.bind_of_returned grow]
    exact ran
  · change (u.blocks (inodeOf s.blocks j) 0).toNat = _
    rw [stored]
    exact sizeWord
  · have sum : (offset.val + datasize.val).toNat = off + n := by omega
    have inFile := inside.high
    rw [inode] at inFile
    rw [sum] at below ⊢
    rw [begins, Int.toNat_natCast]
    refine prepared.byte image used count stored kept spliced (fun b less => ?_) ?_ ?_
    · obtain ⟨place, content⟩ := old b less
      have looked := Volume.resolve_eq fetched.loaded (b := b) (by rw [inode]; exact less)
      rw [disk, inode] at looked
      rw [disk] at content
      rw [Volume.placeOf_eq prepared.spread.loaded (lt_max_of_lt_left less), place, looked]
      exact ⟨rfl, content⟩
    · rw [counted, writeEnd, sum]
      exact (lt_max_iff.1 below).elim (fun less => lt_max_of_lt_left (block_lt less))
        fun less => lt_max_of_lt_right (block_lt less)
    · rw [begins, whole.1] at inFile
      rw [counted]
      exact fun apart => block_lt (Nat.lt_of_not_le fun past => apart
        ⟨Nat.le_trans (Int.ofNat_le.1 inFile) past,
          (lt_max_iff.1 below).resolve_left (Nat.not_lt.2 past)⟩)

/-- **`flatfs_write`** of what fits: the file has grown if it had to, and nothing but its own
blocks and the bitmap has changed. -/
theorem flatfsWrite_cases (buffer : Nat → Byte)
    (enough : writeNeed (s.blocks (inodeOf s.blocks j)) datasize offset ≤
      Lib.free (s.blocks 1) s.totalblocks) :
    ∃ r t, flatfsWrite fileid buffer datasize offset s = .returned (r, t) ∧ Volume.Same s t ∧
      FlatWritten s.totalblocks s.blocks t.blocks j ∧
      (t.blocks (inodeOf s.blocks j) 0).toNat = max (s.blocks (inodeOf s.blocks j) 0).toNat
        (offset.val + datasize.val).toNat := by
  obtain ⟨t, ran, same, -, written, size, -⟩ :=
    flatfsWrite_stored mounted used isFile inside buffer enough
  exact ⟨datasize.val, t, ran, same, written, size⟩

end Calls

end Buenos.Fs
