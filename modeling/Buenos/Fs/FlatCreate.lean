/-
# Fs.FlatCreate -- making a FlatFS file

`flatfs_create` takes a block for the inode, one for the double-indirect pointers of a long
file, and then the blocks and tables of the file.  It finds out whether they are there by
taking them: `createAlloc_cases` says that it either gets all of them (`Made`), or there
were too few, and then nothing has been written but blocks that were free.

`flatfsCreate_cases` lifts this to the image, and `flatfsCreate_iff` says when a file is
made.
-/
import Buenos.Fs.FlatImage
import Buenos.Fs.TfsAlloc

namespace Buenos.Fs

open Buenos.Lib Buenos.Theory

set_option autoImplicit false

namespace Volume

variable {s t u : Flat}

/-- A block that is only taken when it is needed. -/
theorem allocOne_cases (ready : s.Ready) (need : Prop) [Decidable need] (i : Nat) :
    (∃ t new, (if need then allocZeroed .inode i 1 else pure true) s = .returned (true, t) ∧
        new.length = (if need then 1 else 0) ∧ Filled s t .inode i new ∧ (¬ need → t = s)) ∨
      ∃ t, (if need then allocZeroed .inode i 1 else pure true) s = .returned (false, t) ∧
        need ∧ s.room = 0 ∧ Refused s t [] := by
  by_cases needed : need
  · simp only [if_pos needed]
    rcases allocZeroed_cases (b := .inode) (by decide) 1 i s ready with
      ⟨t, new, ran, count, filled⟩ | ⟨t, ran, full, refused⟩
    · exact .inl ⟨t, new, ran, count, filled, fun none => absurd needed none⟩
    · exact .inr ⟨t, ran, needed, by omega, refused⟩
  · simp only [if_neg needed]
    exact .inl ⟨s, [], rfl, rfl, .refl s .inode i, fun _ => rfl⟩

/-- A file with inode block `p` and blocks `parts` was made, and entry `index` names it. -/
structure Made (s t : Flat) (index p : Nat) (parts : List Nat) (size : Word) : Prop where
  same : Volume.Same s t
  nodup : (p :: parts).Nodup
  fresh : ∀ b ∈ p :: parts, b < s.totalblocks ∧ s.marked b = false
  marks : ∀ b, bitmapGet (t.blocks 1) b = true ↔ s.marked b = true ∨ b ∈ p :: parts
  directory : t.blocks 2 = Function.update (s.buffer .md) (5 * index) (BitVec.ofNat 32 p)
  owned : flatParts t.blocks (t.blocks p) = parts
  file : FlatFile t.blocks (t.blocks p)
  size : t.blocks p 0 = size
  kept : ∀ b, b ∉ p :: parts → b ≠ 1 → b ≠ 2 → t.blocks b = s.blocks b

/-- The state when the inode has been set up for a file of that size. -/
def started (s : Flat) (index p : Nat) (size : Word) : Flat :=
  (((s.taken .md (5 * index) p).setWord .inode 0 size).setWord .inode indirWord 0).setWord
    .inode dblIndirWord 0

theorem started_inode (s : Flat) (index p : Nat) (size : Word) :
    (s.started index p size).buffer .inode 0 = size ∧
      (s.started index p size).buffer .inode indirWord = 0 ∧
      (s.started index p size).buffer .inode dblIndirWord = 0 := by
  refine ⟨?_, ?_, ?_⟩ <;> simp [started, indirWord, dblIndirWord]

theorem started_md (s : Flat) (index p : Nat) (size : Word) :
    (s.started index p size).buffer .md =
      Function.update (s.buffer .md) (5 * index) (BitVec.ofNat 32 p) := by
  simp [started, taken]

theorem started_took {index p : Nat} (size : Word)
    (took : Took s (s.taken .md (5 * index) p) [p]) : Took s (s.started index p size) [p] :=
  took.then ⟨rfl, rfl, rfl, rfl⟩ (by simp [started]) rfl

/-- An inode with no blocks yet. -/
theorem empty_sound {dbl : List Nat} (system : ∀ b < 3, s.marked b = true)
    (indir : s.buffer .inode indirWord = 0) (filled : Filled s t .inode dblIndirWord dbl) :
    Sound t 0 (limitOf 0) where
  system := fun b small => filled.took.keeps (system b small)
  nodup := List.nodup_nil
  known := fun b mem => absurd mem List.not_mem_nil
  rest := fun c _ less => by
    obtain rfl : c = 0 := Nat.lt_one_iff.1 less
    exact (filled.words indirWord (.inl (by decide))).trans indir
  slots := fun c less => absurd less (Nat.not_lt_zero c)

/-- A double-indirect block that was just taken is ready. -/
theorem new_doubleReady {dbl : List Nat} (system : ∀ b < 3, s.marked b = true)
    (filled : Filled s t .inode dblIndirWord dbl) (one : dbl.length = 1) {k : Nat} (low : k ≤ 135)
    (tables : ∀ b ∈ t.fileTables k, s.marked b = true) :
    dbl = [t.double] ∧ DoubleReady t k := by
  obtain ⟨d, rfl⟩ := List.length_eq_one_iff.1 one
  have named : t.double = d := filled.stored 0 (by simp)
  have mem : d ∈ [d] := List.mem_singleton_self d
  obtain ⟨inside, clear⟩ := filled.took.fresh d mem
  refine ⟨by rw [named], ?_⟩
  refine
    { above := ?_
      inside := by rw [named, filled.took.same.totalblocks]; exact inside
      marked := by rw [named]; exact (filled.took.marked d).2 (.inr mem)
      apart := ?_
      content := by rw [named, if_pos low]; exact filled.zero d mem }
  · rw [named]
    by_contra low
    rw [system d (by omega)] at clear
    cases clear
  · rw [named]
    intro table
    rw [tables d table] at clear
    cases clear

/-- **The stored file**: what the buffers hold after the allocation, the directory and the
inode are written. -/
theorem made_of_extended (ready : s.Ready) (system : ∀ b < 3, s.marked b = true)
    {index p n : Nat} {size : Word} (count : blocksOf (toInt32 size.toNat).toNat = n)
    (bound : n ≤ FLATFS_MAX_BLOCKS) (started : Took s (s.started index p size) [p])
    {dbl data tabs : List Nat} (filled : Filled (s.started index p size) t .inode dblIndirWord dbl)
    (long : dbl.length = if 135 < n then 1 else 0) (extended : Extended t u 0 n data tabs) :
    createStore index u = .returned (VFS_OK, { (u.didWrite 2 (u.buffer .md)).didWrite p
        (u.buffer .inode) with lock := u.lock + 1 }) ∧
      Took s u (p :: (data ++ (tabs ++ dbl))) ∧
      Made s ((u.didWrite 2 (u.buffer .md)).didWrite p (u.buffer .inode)) index p
        (data ++ (tabs ++ dbl)) size ∧
      ∀ x ∈ flatData ((u.didWrite 2 (u.buffer .md)).didWrite p (u.buffer .inode)).blocks
          (((u.didWrite 2 (u.buffer .md)).didWrite p (u.buffer .inode)).blocks p),
        ((u.didWrite 2 (u.buffer .md)).didWrite p (u.buffer .inode)).blocks x = zeroblock := by
  obtain ⟨size₀, indir₀, dbl₀⟩ := started_inode s index p size
  have took : Took s u (p :: (data ++ (tabs ++ dbl))) := by
    have order : (dbl ++ (data ++ tabs)).Perm (data ++ (tabs ++ dbl)) := by
      rw [← List.append_assoc data]
      exact List.perm_append_comm
    exact ((started.append filled.took).append extended.took).perm (order.cons p)
  have above : ∀ b ∈ p :: (data ++ (tabs ++ dbl)), 3 ≤ b := by
    intro b mem
    by_contra low
    exact took.not_marked (system b (by omega)) mem
  have inodeAbove := above p List.mem_cons_self
  have inside := (took.fresh p List.mem_cons_self).1
  have small := ready.small
  have number : (BitVec.ofNat 32 p).toNat = p := toNat_ofNat (by omega)
  have notInode : ∀ b ∈ data ++ (tabs ++ dbl), b ≠ p := by
    rintro b mem rfl
    exact (List.nodup_cons.1 took.nodup).1 mem
  have md : u.buffer .md = Function.update (s.buffer .md) (5 * index) (BitVec.ofNat 32 p) := by
    rw [extended.md, filled.others .md (by decide) (by decide), started_md]
  have word : u.buffer .inode 0 = size := by
    rw [extended.inode 0 (.inl rfl), filled.words 0 (.inl (by decide)), size₀]
  have counted : flatCount (u.buffer .inode) = n := by
    unfold flatCount fileSize
    rw [word, count]
  have dblWord := extended.inode dblIndirWord (.inr (by decide))
  have isDouble : 135 < n → dbl = [t.double] := by
    intro large
    rw [if_pos large] at long
    exact (new_doubleReady (fun b small => started.keeps (system b small)) filled long
      (Nat.zero_le _) fun b mem => absurd mem List.not_mem_nil).1
  have double : flatDouble (u.buffer .inode) = dbl := by
    unfold flatDouble
    rw [counted]
    by_cases large : 135 < n
    · rw [if_pos large, dblWord, isDouble large]
      rfl
    · rw [if_neg large] at long ⊢
      exact (List.length_eq_zero_iff.1 long).symm
  have none : n ≤ 135 → u.buffer .inode dblIndirWord = 0 := by
    intro low
    rw [if_neg (by omega)] at long
    rw [dblWord, filled.words dblIndirWord (.inr (by omega)), dbl₀]
  have tables : u.fileTables (0 + n) = tabs := extended.tables
  have blocks : u.fileBlocks (0 + n) = data := extended.blocks
  rw [Nat.zero_add] at tables blocks
  have sound := extended.sound
  have tail := extended.tail
  have loaded : Loaded u (0 + n) := fun large => (extended.double large).symm
  rw [Nat.zero_add] at sound tail loaded
  have kept : ∀ b, b ≠ p → b ≠ 2 →
      ((u.didWrite 2 (u.buffer .md)).didWrite p (u.buffer .inode)).blocks b = u.blocks b := by
    intro b notInode notDirectory
    rw [didWrite_blocks, Function.update_of_ne notInode, didWrite_blocks,
      Function.update_of_ne notDirectory]
  obtain ⟨file, listed, parts⟩ := flatFile_of_buffers
    ((u.didWrite 2 (u.buffer .md)).didWrite p (u.buffer .inode)).blocks
    ⟨bound, tail, sound.rest, sound.slots, loaded, none⟩ counted (by
      intro b mem
      rw [tables, double] at mem
      have part := List.mem_append_right data mem
      have := above b (List.mem_cons_of_mem _ part)
      exact kept b (notInode b part) (by omega))
  have content : ((u.didWrite 2 (u.buffer .md)).didWrite p (u.buffer .inode)).blocks p =
      u.buffer .inode := by
    rw [didWrite_blocks, Function.update_self]
  refine ⟨?_, took, ?_, fun x mem => ?_⟩
  · have ready' := ready.same took.same
    have total := took.same.totalblocks
    have named : entryInode (u.buffer .md) index = BitVec.ofNat 32 p := by
      unfold entryInode
      rw [md, Function.update_self]
    have stored := writeMd ready' (by omega)
    have written := writeBuffer_ready (ready'.same (.didWrite 2 (u.buffer .md)))
      (BitVec.ofNat 32 p) FlatBuffer.inode (by
        rw [number, didWrite_totalblocks, total]
        exact inside)
    rw [number] at written
    rw [createStore, Prog.bind_of_returned stored]
    simp only [if_true, Prog.bind_gets_apply, didWrite_buffer, named]
    rw [Prog.bind_of_returned written]
    rfl
  · refine
      { same := took.same.trans (.trans (.didWrite _ _) (.didWrite _ _))
        nodup := took.nodup
        fresh := took.fresh
        marks := ?_
        directory := ?_
        owned := ?_
        file := by rw [content]; exact file
        size := by rw [content]; exact word
        kept := ?_ }
    · intro b
      rw [kept 1 (by omega) (by decide), extended.bitmap]
      exact took.marked b
    · rw [didWrite_blocks, Function.update_of_ne (by omega), didWrite_blocks, Function.update_self,
        md]
    · rw [content, parts, blocks, tables, double]
    · intro b notNew notBitmap notDirectory
      simp only [List.mem_cons, List.mem_append, not_or] at notNew
      obtain ⟨notInode, notData, notTab, notDouble⟩ := notNew
      rw [kept b notInode notDirectory, extended.kept b notData _ notBitmap, filled.kept b notDouble]
      · rfl
      · rw [Nat.zero_add]
        intro large
        rw [isDouble large, List.mem_singleton] at notDouble
        exact notDouble
      · rw [Nat.zero_add, tables]
        exact notTab
  · rw [content, listed, blocks] at mem
    have part := List.mem_append_left (tabs ++ dbl) mem
    have := above x (List.mem_cons_of_mem _ part)
    rw [kept x (notInode x part) (by omega)]
    exact extended.zero x mem

end Volume

/-- The blocks that a file of `n` blocks takes, its inode among them. -/
def blocksNeeded (n : Nat) : Nat :=
  1 + n + (if 7 < n then 1 else 0) + if 135 < n then 1 + (n - 135 + 127) / 128 else 0

theorem blocksNeeded_eq (n : Nat) :
    blocksNeeded n = 1 + n + tables n + if 135 < n then 1 else 0 := by
  unfold blocksNeeded tables
  split_ifs <;> omega

namespace Volume

variable {s t u : Flat}

/-- **The allocations** of `flatfs_create` are all met, or there were too few blocks. -/
theorem createAlloc_cases (ready : s.Ready) (room : 3 ≤ s.totalblocks)
    (system : ∀ b < 3, s.marked b = true) (index size : Nat) {n : Nat}
    (count : blocksOf (toInt32 (BitVec.ofNat 32 size).toNat).toNat = n)
    (bound : n ≤ FLATFS_MAX_BLOCKS) :
    (∃ t p parts, createAlloc index n size s = .returned (VFS_OK, { t with lock := t.lock + 1 }) ∧
        blocksNeeded n ≤ s.room ∧ Made s t index p parts (BitVec.ofNat 32 size) ∧
        t.refused = s.refused ∧ ∀ x ∈ flatData t.blocks (t.blocks p), t.blocks x = zeroblock) ∨
      ∃ t, createAlloc index n size s = .returned (VFS_ERROR, { t with lock := t.lock + 1 }) ∧
        s.room < blocksNeeded n ∧ Refused s t [] := by
  rw [blocksNeeded_eq]
  rcases flatfsBmAlloc_cases s (b := .md) (5 * index) (by decide) with
    ⟨p, ran, took⟩ | ⟨t, ran, full, refused⟩
  · have started := started_took (BitVec.ofNat 32 size) took
    have step : createAlloc index n size s =
        ((if 135 < n then allocZeroed .inode dblIndirWord 1 else pure true) >>= fun ready =>
          (if ready then do
            let done ← flatfsAllocBlocks n 0
            if done then createStore index else unlock VFS_ERROR
          else unlock VFS_ERROR : Prog Flat Int)) (s.started index p (BitVec.ofNat 32 size)) := by
      rw [createAlloc, Prog.bind_of_returned ran, if_pos rfl, Prog.bind_ite_apply]
      change (ite (135 < n) _ _ : Prog Flat Int) (s.started index p (BitVec.ofNat 32 size)) = _
      rw [Prog.ite_apply]
    have startRoom := started.room
    have system' : ∀ b < 3, (s.started index p (BitVec.ofNat 32 size)).marked b = true :=
      fun b small => started.keeps (system b small)
    rw [step]
    rcases allocOne_cases (ready.same started.same) (135 < n) dblIndirWord with
      ⟨t, dbl, ran', long, filled, -⟩ | ⟨t, ran', large, full, refused⟩
    · have took' := started.append filled.took
      have room' := took'.room
      have sound := empty_sound system' (started_inode s index p _).2.1 filled
      rw [Prog.bind_of_returned ran']
      rcases flatfsAllocBlocks_cases (n := n) (ready.same took'.same)
        (by rw [took'.same.totalblocks]; exact room) sound
        (fun b mem => absurd mem List.not_mem_nil) (fun _ => Nat.zero_le _)
        (by omega) (by
          rw [Nat.zero_add]
          intro large
          rw [if_pos large] at long
          exact (new_doubleReady system' filled long (Nat.zero_le _)
            fun b mem => absurd mem List.not_mem_nil).2) with
        ⟨u, data, tabs, ran'', extended⟩ | ⟨u, ran'', short, refused⟩
      · left
        obtain ⟨stored, all, made, zeros⟩ :=
          made_of_extended ready system count bound started filled long extended
        have enough := all.room
        have counted := congrArg List.length extended.tables
        simp only [fileTables, tabled_length, List.length_append, Nat.zero_add] at counted
        simp only [List.length_cons, List.length_append, extended.count, long] at enough
        refine ⟨_, p, _, ?_, ?_, made, all.refused, zeros⟩
        · simp only [if_true]
          rw [Prog.bind_of_returned ran'']
          exact stored
        · have none : tables 0 = 0 := rfl
          omega
      · right
        refine ⟨u, ?_, ?_, ?_⟩
        · simp only [if_true]
          rw [Prog.bind_of_returned ran'']
          rfl
        · rw [Nat.zero_add, show tables 0 = 0 from rfl, Nat.sub_zero] at short
          rw [List.length_append, List.length_singleton, long] at room'
          omega
        · refine Refused.after took' (fun b marked _ => ?_) refused
          exact filled.kept b (filled.took.not_marked (started.keeps marked))
    · right
      refine ⟨t, ?_, ?_, .after started (fun _ _ _ => rfl) refused⟩
      · rw [Prog.bind_of_returned ran']
        rfl
      · rw [List.length_singleton] at startRoom
        rw [if_pos large]
        omega
  · right
    refine ⟨t, ?_, by omega, refused⟩
    rw [createAlloc, Prog.bind_of_returned ran]
    rfl

end Volume

/-- What creating a file of `size` bytes does to the image. -/
structure FlatCreated (n : Nat) (blocks blocks' : Nat → Block) (filename : Name) (size : CInt)
    (j p : Nat) : Prop where
  absent : findEntry (blocks 2) filename = none
  free : entryInode (blocks 2) j = 0
  directory : EntrySet (blocks 2) (blocks' 2) j (stringcopy filename FLATFS_FILENAME_MAX)
    (BitVec.ofNat 32 p)
  nodup : (p :: flatParts blocks' (blocks' p)).Nodup
  fresh : ∀ b ∈ p :: flatParts blocks' (blocks' p), b < n ∧ ¬ Marked blocks b
  marks : ∀ b, Marked blocks' b ↔ Marked blocks b ∨ b ∈ p :: flatParts blocks' (blocks' p)
  file : FlatFile blocks' (blocks' p)
  size : fileSize (blocks' p) = size.val
  kept : ∀ b, b ∉ p :: flatParts blocks' (blocks' p) → b ≠ 1 → b ≠ 2 → blocks' b = blocks b

/-- The new entry is in use, with inode `p`. -/
theorem FlatCreated.entry {n : Nat} {blocks blocks' : Nat → Block} {filename : Name}
    {size : CInt} {j p : Nat} (small : n ≤ 4096) (image : FlatImage n blocks)
    (created : FlatCreated n blocks blocks' filename size j p) :
    Used (blocks' 2) j ∧ inodeOf blocks' j = p := by
  obtain ⟨inside, clear⟩ := created.fresh p List.mem_cons_self
  have above : 3 ≤ p := by
    by_contra low
    exact clear (image.held.reserved p (by omega))
  have number : (BitVec.ofNat 32 p).toNat = p := Volume.toNat_ofNat (by omega)
  constructor
  · refine ⟨created.directory.inside, fun zero => ?_⟩
    rw [created.directory.inode] at zero
    rw [zero] at number
    exact absurd number (by simp; omega)
  · unfold inodeOf
    rw [created.directory.inode, number]

/-- What the new entry owns; the other entries keep what they own. -/
theorem FlatCreated.slots {n : Nat} {blocks blocks' : Nat → Block} {filename : Name}
    {size : CInt} {j p : Nat} (small : n ≤ 4096) (image : FlatImage n blocks)
    (created : FlatCreated n blocks blocks' filename size j p) :
    flatSlots blocks' j = p :: flatParts blocks' (blocks' p) ∧
      FlatImage.Others blocks blocks' j := by
  obtain ⟨used, place⟩ := created.entry small image
  refine ⟨by rw [FlatImage.slots_used used, place], created.directory.inodes, fun k _ b mem => ?_⟩
  obtain ⟨low, -, -⟩ := image.owned mem
  refine created.kept b (fun new => ?_) (by omega) (by omega)
  exact (created.fresh b new).2 (image.held.owned k b mem)

/-- **A file more** keeps the image consistent. -/
theorem FlatCreated.image' {n : Nat} {blocks blocks' : Nat → Block} {filename : Name}
    {size : CInt} {j p : Nat} (small : n ≤ 4096) (image : FlatImage n blocks)
    (created : FlatCreated n blocks blocks' filename size j p) : FlatImage n blocks' := by
  obtain ⟨used, place⟩ := created.entry small image
  obtain ⟨slots, others⟩ := created.slots small image
  refine image.exchange others ?_ ?_ ?_ ?_ ?_ ?_ ?_
  · rw [slots]
    exact created.nodup
  · rw [slots]
    intro b mem
    obtain ⟨inside, clear⟩ := created.fresh b mem
    exact ⟨inside, fun marked => absurd marked clear⟩
  · exact fun b marked _ => (created.marks b).2 (.inl marked)
  · rw [slots]
    exact fun b mem => (created.marks b).2 (.inr mem)
  · intro _
    rw [place]
    exact created.file
  · refine created.directory.blanked (fun zero => absurd ?_ used.2) image.blanked
    rw [created.directory.inode, zero]
  · exact created.directory.terminated (stringcopy_short filename) image.terminated

/-- What was allocated is a file more. -/
theorem Volume.Made.created {n : Nat} {blocks : Nat → Block} {u t : Flat} {filename : Name}
    {size : CInt} {j p : Nat} {parts : List Nat} (small : n ≤ 4096) (image : FlatImage n blocks)
    (total : u.totalblocks = n) (bat : u.buffer .bat = blocks 1)
    (md : u.buffer .md = copyName (blocks 2) (20 * j + 4) filename FLATFS_FILENAME_MAX)
    (disk : u.blocks = blocks) (absent : findEntry (blocks 2) filename = none)
    (free : j < 25 ∧ entryInode (blocks 2) j = 0)
    (made : Volume.Made u t j p parts (BitVec.ofNat 32 (toUint32 size.val))) :
    FlatCreated n blocks t.blocks filename size j p := by
  have fresh : ∀ b ∈ p :: parts, b < n ∧ ¬ Marked blocks b := by
    intro b mem
    obtain ⟨inside, unmarked⟩ := made.fresh b mem
    rw [total] at inside
    refine ⟨inside, fun marked => ?_⟩
    rw [Volume.marked, bat, marked.2] at unmarked
    cases unmarked
  refine
    { absent := absent
      free := free.2
      directory := ?_
      nodup := by rw [made.owned]; exact made.nodup
      fresh := by rw [made.owned]; exact fresh
      marks := ?_
      file := made.file
      size := ?_
      kept := ?_ }
  · rw [made.directory, md]
    exact entrySet_store filename _ image.terminated free.1
  · intro b
    unfold Marked
    rw [made.owned, made.marks, Volume.marked, bat]
    constructor
    · rintro ⟨bound, old | new⟩
      · exact .inl ⟨bound, old⟩
      · exact .inr new
    · rintro (⟨bound, old⟩ | new)
      · exact ⟨bound, .inl old⟩
      · exact ⟨Nat.lt_of_lt_of_le (fresh b new).1 small, .inr new⟩
  · rw [fileSize, made.size]
    exact toInt32_toUint32 size
  · rw [made.owned]
    intro b notNew notBitmap notDirectory
    rw [made.kept b notNew notBitmap notDirectory, disk]

/-- A size that is not negative and not too large counts the same blocks. -/
theorem numBlocks_small {size : CInt} (nonneg : 0 ≤ size.val)
    (few : blocksOf size.val.toNat ≤ FLATFS_MAX_BLOCKS) :
    numBlocks size = blocksOf size.val.toNat := by
  obtain ⟨size, low, high⟩ := size
  change (size.toNat + 511) / 512 ≤ 7 + 128 + 16384 at few
  change toUint32 ((toInt32 (size + 512 - 1)).tdiv 512) = (size.toNat + 511) / 512
  change 0 ≤ size at nonneg
  rw [toInt32_eq (by omega) (by omega), tdiv_block, if_pos (by omega)]
  unfold toUint32
  omega

theorem findSlot_of_unused {md : Block} {j : Nat} (inside : j < 25)
    (unused : entryInode md j = 0) : ∃ k, findSlot md = some k := by
  rw [← Option.isSome_iff_exists, findSlot, List.find?_isSome]
  exact ⟨j, by simpa [FLATFS_MAX_FILES] using inside, by simpa using unused⟩

/-- What `flatfs_create` checks before it allocates. -/
def Admitted (blocks : Nat → Block) (filename : Name) (size : CInt) : Prop :=
  numBlocks size ≤ FLATFS_MAX_BLOCKS ∧ findEntry (blocks 2) filename = none ∧
    ∃ j, findSlot (blocks 2) = some j

/-- All that `flatfs_create` checks before and while it allocates. -/
structure Creatable (n : Nat) (blocks : Nat → Block) (filename : Name) (size : CInt) : Prop where
  small : numBlocks size ≤ FLATFS_MAX_BLOCKS
  absent : findEntry (blocks 2) filename = none
  slot : ∃ j, findSlot (blocks 2) = some j
  room : blocksNeeded (numBlocks size) ≤ Lib.free (blocks 1) n

section Operations

variable {s : Flat} (mounted : FlatMounted s)

include mounted

/-- `flatfs_create` makes the file, with its name in the entry that was free, or it was not
possible and nothing in use has changed. -/
theorem flatfsCreate_stored (filename : Name) (size : CInt) :
    (∃ t, flatfsCreate filename size s = .returned (VFS_ERROR, t) ∧ Volume.Same s t ∧
        (∀ b, Marked s.blocks b → t.blocks b = s.blocks b) ∧
        (¬ Admitted s.blocks filename size ∧ t.refused = s.refused ∨
          Admitted s.blocks filename size ∧
            Lib.free (s.blocks 1) s.totalblocks < blocksNeeded (numBlocks size) ∧
            s.refused < t.refused)) ∨
      ∃ t j p, flatfsCreate filename size s = .returned (VFS_OK, t) ∧ Volume.Same s t ∧
        FlatCreated s.totalblocks s.blocks t.blocks filename size j p ∧
        Creatable s.totalblocks s.blocks filename size ∧
        t.blocks 2 = storeEntry (s.blocks 2) j filename (BitVec.ofNat 32 p) ∧
        t.refused = s.refused ∧ ∀ x ∈ flatData t.blocks (t.blocks p), t.blocks x = zeroblock := by
  obtain ⟨ready, free, room, image⟩ := mounted
  have unlocked : ∀ t : Flat, Volume.Same s.locked t →
      Volume.Same s { t with lock := t.lock + 1 } := fun t same => same.unlock
  have computed : toUint32 ((toInt32 (size.val + FLATFS_BLOCK_SIZE - 1)).tdiv FLATFS_BLOCK_SIZE) =
      numBlocks size := rfl
  simp only [flatfsCreate, computed, Prog.bind_of_returned (Volume.lockP_free free)]
  by_cases many : FLATFS_MAX_BLOCKS < numBlocks size
  · left
    rw [if_pos many]
    exact ⟨_, rfl, unlocked _ (.refl _), fun _ _ => rfl,
      .inl ⟨fun may => absurd may.1 (by omega), rfl⟩⟩
  · have few : numBlocks size ≤ FLATFS_MAX_BLOCKS := Nat.le_of_not_lt many
    rw [if_neg many, Prog.bind_of_returned (Volume.readMd ready.locked room)]
    simp only [if_true, Prog.bind_gets_apply, Volume.didRead_buffer, Function.update_self,
      Volume.locked_blocks]
    have loaded : Volume.Same s.locked (s.locked.didRead 2 FlatBuffer.md) := .didRead 2 _
    cases present : findEntry (s.blocks 2) filename with
    | some j =>
        left
        refine ⟨_, rfl, unlocked _ loaded, fun _ _ => rfl, .inl ⟨fun may => ?_, rfl⟩⟩
        rw [may.2.1] at present
        cases present
    | none =>
        cases slot : findSlot (s.blocks 2) with
        | none =>
            left
            refine ⟨_, rfl, unlocked _ loaded, fun _ _ => rfl, .inl ⟨fun may => ?_, rfl⟩⟩
            obtain ⟨j, found⟩ := may.2.2
            rw [slot] at found
            cases found
        | some j =>
            obtain ⟨inside, unused⟩ := findSlot_some slot
            let named : Flat := (s.locked.didRead 2 .md).setBuffer .md
              (copyName (s.blocks 2) (20 * j + 4) filename FLATFS_FILENAME_MAX)
            have sameNamed : Volume.Same s.locked named := loaded.trans (.setBuffer _ _)
            have bitmap := Volume.readBat (ready.locked.same sameNamed) room
            have same : Volume.Same s.locked (named.didRead 1 FlatBuffer.bat) :=
              sameNamed.trans (.didRead _ _)
            have bat : (named.didRead 1 FlatBuffer.bat).buffer .bat = s.blocks 1 := by
              simp [named]
            simp only [Prog.bind_modify_apply, Volume.didRead_buffer, Function.update_self]
            have step := Prog.bind_of_returned (f := fun loaded =>
              if loaded then createAlloc j (numBlocks size) (toUint32 size.val)
              else unlock VFS_ERROR) bitmap
            have marked : ∀ b, Marked s.blocks b →
                (named.didRead 1 FlatBuffer.bat).marked b = true := by
              intro b mark
              rw [Volume.marked, bat]
              exact mark.2
            have size_eq : (toInt32 (BitVec.ofNat 32 (toUint32 size.val)).toNat) = size.val :=
              toInt32_toUint32 size
            have roomEq : (named.didRead 1 FlatBuffer.bat).room =
                Lib.free (s.blocks 1) s.totalblocks := by
              rw [Volume.room, bat]
              rfl
            have system : ∀ b < 3, (named.didRead 1 FlatBuffer.bat).marked b = true :=
              fun b small => marked b (image.held.reserved b small)
            rcases Volume.createAlloc_cases (ready.locked.same same) room system j
              (toUint32 size.val) (n := numBlocks size) (by
                rw [size_eq]
                exact (numBlocks_eq (Nat.lt_of_le_of_lt few (by decide))).symm) few with
              ⟨t, p, parts, ran, fits, made, none, zeros⟩ | ⟨t, ran, short, refused⟩
            · right
              rw [roomEq] at fits
              refine ⟨_, j, p, step.trans ran, unlocked _ (same.trans made.same), ?_,
                ⟨few, present, ⟨j, slot⟩, fits⟩, made.directory.trans (by simp [named, storeEntry]),
                none, zeros⟩
              exact Volume.Made.created (u := named.didRead 1 FlatBuffer.bat) (t := t)
                ready.small image rfl bat (by simp [named]) rfl present ⟨inside, unused⟩ made
            · left
              rw [roomEq] at short
              refine ⟨_, step.trans ran, unlocked t (same.trans refused.same), fun b mark => ?_,
                .inr ⟨⟨few, present, j, slot⟩, short, refused.refused⟩⟩
              exact refused.kept b (marked b mark) List.not_mem_nil

/-- **`flatfs_create`** makes the file, or it was not possible and nothing in use has
changed. -/
theorem flatfsCreate_cases (filename : Name) (size : CInt) :
    (∃ t, flatfsCreate filename size s = .returned (VFS_ERROR, t) ∧ Volume.Same s t ∧
        (∀ b, Marked s.blocks b → t.blocks b = s.blocks b) ∧
        ¬ Creatable s.totalblocks s.blocks filename size) ∨
      ∃ t j p, flatfsCreate filename size s = .returned (VFS_OK, t) ∧ Volume.Same s t ∧
        FlatCreated s.totalblocks s.blocks t.blocks filename size j p ∧
        Creatable s.totalblocks s.blocks filename size := by
  rcases flatfsCreate_stored mounted filename size with
    ⟨t, ran, same, kept, reason⟩ | ⟨t, j, p, ran, same, created, can, -⟩
  · refine .inl ⟨t, ran, same, kept, fun can => ?_⟩
    rcases reason with ⟨obstructed, -⟩ | ⟨-, full, -⟩
    · exact obstructed ⟨can.small, can.absent, can.slot⟩
    · exact absurd can.room (Nat.not_le_of_lt full)
  · exact .inr ⟨t, j, p, ran, same, created, can⟩

/-- **When a file is made**: it is small enough, its name is new, an entry is free, and so
are enough blocks.  Otherwise all blocks in use are as they were. -/
theorem flatfsCreate_iff {filename : Name} (nonempty : filename ≠ []) {size : CInt}
    (nonneg : 0 ≤ size.val) :
    (flatfsCreate filename size).Ends s fun result t =>
      (result = VFS_OK ↔
        blocksOf size.val.toNat ≤ FLATFS_MAX_BLOCKS ∧
        (∀ j, Used (s.blocks 2) j → entryName (s.blocks 2) j ≠ filename) ∧
        (∃ j < 25, entryInode (s.blocks 2) j = 0) ∧
        blocksNeeded (blocksOf size.val.toNat) ≤ Lib.free (s.blocks 1) s.totalblocks) ∧
      (result ≠ VFS_OK → result = VFS_ERROR ∧ t.blocks 1 = s.blocks 1 ∧
        t.blocks 2 = s.blocks 2 ∧ ∀ b, Marked s.blocks b → t.blocks b = s.blocks b) := by
  have image := mounted.image
  have words : Creatable s.totalblocks s.blocks filename size ↔
      blocksOf size.val.toNat ≤ FLATFS_MAX_BLOCKS ∧
      (∀ j, Used (s.blocks 2) j → entryName (s.blocks 2) j ≠ filename) ∧
      (∃ j < 25, entryInode (s.blocks 2) j = 0) ∧
      blocksNeeded (blocksOf size.val.toNat) ≤ Lib.free (s.blocks 1) s.totalblocks := by
    have small := fun few => numBlocks_small nonneg few
    have names : findEntry (s.blocks 2) filename = none ↔
        ∀ j, Used (s.blocks 2) j → entryName (s.blocks 2) j ≠ filename := by
      rw [findEntry_none]
      constructor
      · exact fun absent j used => absent j used.1
      · intro absent j inside named
        apply absent j ⟨inside, fun unused => ?_⟩ named
        exact nonempty (named.symm.trans (image.blanked j inside unused))
    constructor
    · intro can
      have count := numBlocks_eq (Nat.lt_of_le_of_lt can.small (by decide))
      obtain ⟨j, found⟩ := can.slot
      obtain ⟨inside, unused⟩ := findSlot_some found
      exact ⟨count ▸ can.small, names.1 can.absent, ⟨j, inside, unused⟩, count ▸ can.room⟩
    · rintro ⟨few, absent, ⟨j, inside, unused⟩, room⟩
      have count := small few
      exact ⟨count ▸ few, names.2 absent, findSlot_of_unused inside unused, count ▸ room⟩
  rcases flatfsCreate_cases mounted filename size with
    ⟨t, ran, same, kept, cannot⟩ | ⟨t, j, p, ran, same, created, can⟩
  · refine ⟨_, t, ran, ⟨fun ok => absurd ok (by decide), fun can => absurd (words.2 can) cannot⟩,
      fun _ => ⟨rfl, kept 1 ?_, kept 2 ?_, kept⟩⟩
    · exact image.held.reserved 1 (by decide)
    · exact image.held.reserved 2 (by decide)
  · exact ⟨_, t, ran, ⟨fun _ => words.1 can, fun _ => rfl⟩, fun failed => absurd rfl failed⟩

/-- A file that was made can be found. -/
theorem flatfsCreate_found {filename : Name} (short : filename.length ≤ 15) {size : CInt}
    (can : Creatable s.totalblocks s.blocks filename size) :
    (flatfsCreate filename size).Ends s fun result t => result = VFS_OK ∧ FlatMounted t ∧
      ∃ j, findEntry (t.blocks 2) filename = some j ∧ Used (t.blocks 2) j ∧
        flatCount (t.blocks (inodeOf t.blocks j)) = blocksOf size.val.toNat := by
  have image := mounted.image
  have small := mounted.ready.small
  rcases flatfsCreate_cases mounted filename size with
    ⟨t, -, -, -, cannot⟩ | ⟨t, j, p, ran, same, created, -⟩
  · exact absurd can cannot
  · obtain ⟨used, place⟩ := created.entry small image
    refine ⟨_, t, ran, rfl, mounted.same same (created.image' small image), j, ?_, used, ?_⟩
    · refine findEntry_eq used.1 ?_ fun k before named => ?_
      · rw [created.directory.name]
        exact List.take_of_length_le short
      · have inside := used.1
        rw [created.directory.names k (by omega) (by omega)] at named
        exact findEntry_none.1 created.absent k (by omega) named
    · rw [place, flatCount, created.size]

end Operations

/-! ## A volume of ten blocks -/

/-- The bitmap of a volume without files. -/
def systemBitmap : Block := fun i => if i = 0 then 0x7#32 else 0

theorem systemBitmap_get {b : Nat} : bitmapGet systemBitmap b = true ↔ b < 3 := by
  unfold bitmapGet systemBitmap
  by_cases first : b / 32 = 0
  · have inside : b < 32 := by omega
    have low : ∀ b < 32, (0x7#32).getLsbD b = true ↔ b < 3 := by decide
    rw [if_pos first, Nat.mod_eq_of_lt inside]
    exact low b inside
  · rw [if_neg first]
    simp
    omega

def tenBlocks : Flat := Volume.idle 10 fun b => if b = 1 then systemBitmap else zeroblock

theorem flatMounted_tenBlocks : FlatMounted tenBlocks where
  ready := Volume.ready_idle (by decide) _
  free := by decide
  room := by decide
  image := FlatImage.empty (fun _ small => systemBitmap_get.2 small) (by decide +kernel)

def newName : Name := [⟨0x6e#8, by decide⟩]

def oneByte : CInt := ⟨1, by decide⟩

theorem flatfsCreate_iff_tenBlocks :
    (flatfsCreate newName oneByte).Ends tenBlocks fun result _ => result = VFS_OK := by
  have ends := flatfsCreate_iff flatMounted_tenBlocks (show newName ≠ [] by decide)
    (show 0 ≤ oneByte.val by decide)
  refine ends.mono fun result t holds => holds.1.2
    ⟨by decide, ?_, by decide +kernel, by decide +kernel⟩
  exact fun j used => absurd rfl used.2

end Buenos.Fs
