/-
# Fs.TfsOrder -- TFS between two disk writes

`tfs_create` writes the bitmap, the directory and the inode, and then zeros to the new blocks;
`tfs_remove` writes the bitmap and the directory.  Whatever requests are refused, a call ends at
one of its points: `tfsCreate_point` and `tfsRemove_point`.

The image before the call need not be exact.  A creation that is stopped behind the bitmap leaves
blocks marked that no file owns, so the points are those of a `TfsSound` image, in which every
owned block is marked and has one owner; outside the two windows it stays so.
-/
import Buenos.Fs.TfsFiles
import Buenos.Fs.WriteOrder

namespace Buenos.Fs

open Buenos.Lib Buenos.Theory

set_option autoImplicit false

/-- The blocks that an inode of TFS lists. -/
def tfsListed (_blocks : Nat → Block) (ino : Block) : List Nat := tableBlocks ino

/-- An inode lists the blocks that its size needs. -/
def Covers (ino : Block) : Prop := blocksOf (fileSize ino).toNat ≤ (tableBlocks ino).length

/-- An image in which no two files share a block and every owned block is marked.  Blocks may be
marked that no file owns. -/
structure TfsSound (n : Nat) (blocks : Nat → Block) : Prop where
  held : Held (· < 3) (Marked blocks) (slotBlocks blocks)
  inside : ∀ j, ∀ b ∈ slotBlocks blocks j, b < n
  covered : ∀ j, Used (blocks 2) j → Covers (blocks (inodeOf blocks j))
  blanked : Blanked (blocks 2)
  terminated : Terminated (blocks 2)

theorem Image.sound {n : Nat} {blocks : Nat → Block} (image : Image n blocks) : TfsSound n blocks where
  held :=
    { nodup := image.exact.nodup
      apart := image.exact.apart
      outside := image.exact.outside
      reserved := fun b low => (image.exact.marked b).2 (.inl low)
      owned := fun _ _ mem => image.exact.is_marked mem }
  inside := image.inside
  covered := image.covered
  blanked := image.blanked
  terminated := image.terminated

namespace TfsSound

variable {n : Nat} {blocks blocks' : Nat → Block} {j b : Nat} (sound : TfsSound n blocks)

include sound

/-- An owned block is a data block of the volume. -/
theorem owned (mem : b ∈ slotBlocks blocks j) : 3 ≤ b ∧ b < n :=
  ⟨Nat.le_of_not_lt (sound.held.outside j b mem), sound.inside j b mem⟩

theorem owning : Owning tfsListed blocks where
  marked := fun k used b mem => by
    have owned : b ∈ slotBlocks blocks k := by
      rw [Image.slotBlocks_used used]
      exact mem
    exact ⟨(sound.owned owned).1, sound.held.owned k b owned⟩
  frame := fun _ _ _ _ => rfl

/-- What a file owns is saved. -/
theorem kept (saved : Saved blocks blocks') (mem : b ∈ slotBlocks blocks j) : blocks' b = blocks b :=
  saved.kept b (sound.owned mem).1 (sound.held.owned j b mem)

/-- With more blocks marked, and the files as they were. -/
theorem leak (saved : Saved blocks blocks') (directory : blocks' 2 = blocks 2) :
    TfsSound n blocks' := by
  have slots : slotBlocks blocks' = slotBlocks blocks :=
    Image.frame_slotBlocks directory fun k used => sound.kept saved (Image.inode_mem used)
  refine ⟨⟨?_, ?_, ?_, ?_, ?_⟩, ?_, fun k used => ?_, ?_, ?_⟩
  · rw [slots]
    exact sound.held.nodup
  · rw [slots]
    exact sound.held.apart
  · rw [slots]
    exact sound.held.outside
  · exact fun b low => saved.marks b (sound.held.reserved b low)
  · rw [slots]
    exact fun k b mem => saved.marks b (sound.held.owned k b mem)
  · rw [slots]
    exact sound.inside
  · rw [directory] at used
    rw [show inodeOf blocks' k = inodeOf blocks k by rw [inodeOf, inodeOf, directory],
      sound.kept saved (Image.inode_mem used)]
    exact sound.covered k used
  · rw [directory]
    exact sound.blanked
  · rw [directory]
    exact sound.terminated

/-- **A creation** that was not stopped between the directory and the inode. -/
theorem create {made : Block → Prop} {asked : List Request} (covers : ∀ ino, made ino → Covers ino)
    (point : CreatePoint tfsListed made n blocks blocks' asked) (last : lastWrite asked ≠ some 2) :
    TfsSound n blocks' := by
  obtain ⟨saved, ⟨same, -⟩ | ⟨j, name, p, entry, free, ⟨positive, small⟩, short, late⟩⟩ := point
  · exact sound.leak saved same
  obtain ⟨early, -⟩ | ⟨-, ordered, file⟩ := late
  · exact absurd early last
  have number : (BitVec.ofNat 32 p).toNat = p := Volume.toNat_ofNat small
  have nonzero : BitVec.ofNat 32 p ≠ 0 := by
    intro zero
    rw [zero] at number
    exact absurd number (Nat.ne_of_lt positive)
  have place : inodeOf blocks' j = p := by rw [inodeOf, entry.inode, number]
  have used : Used (blocks' 2) j := ⟨entry.inside, entry.inode ▸ nonzero⟩
  have slots : slotBlocks blocks' =
      Function.update (slotBlocks blocks) j (p :: tfsListed blocks' (blocks' p)) := by
    rw [entry.slots fun _ _ _ => sound.kept saved, Image.slotBlocks_used used, place]
    rfl
  refine ⟨?_, fun k b mem => ?_, fun k usedK => ?_,
    entry.blanked (fun zero => absurd zero nonzero) sound.blanked,
    entry.terminated short sound.terminated⟩
  · rw [slots]
    refine sound.held.exchange j file.nodup (fun b mem mark => absurd mark (file.fresh b mem).2)
      (fun b mark _ => saved.marks b mark) fun b mem => ?_
    rcases List.mem_cons.1 mem with rfl | mem
    · exact place ▸ ordered.inode
    · exact ordered.listed b (place.symm ▸ mem)
  · rw [slots] at mem
    by_cases new : k = j
    · rw [new, Function.update_self] at mem
      exact (file.fresh b mem).1
    · rw [Function.update_of_ne new] at mem
      exact sound.inside k b mem
  · by_cases new : k = j
    · rw [new]
      rcases ordered.written with ⟨before, -⟩ | ⟨-, isMade⟩
      · exact absurd free before.2
      · exact covers _ isMade
    · have before := (entry.used_ne new).1 usedK
      rw [entry.inode_ne new before, sound.kept saved (Image.inode_mem before)]
      exact sound.covered k before

variable (cleared : Cleared blocks blocks' j)

include cleared

theorem kept_cleared {k : Nat} (mem : b ∈ slotBlocks blocks k) : blocks' b = blocks b := by
  have data := (sound.owned mem).1
  exact cleared.kept b (by omega) (by omega)

/-- **A removal** that is done. -/
theorem remove : TfsSound n blocks' := by
  have slots : slotBlocks blocks' = Function.update (slotBlocks blocks) j [] := by
    rw [cleared.directory.slots fun _ _ _ => sound.kept_cleared cleared,
      show slotBlocks blocks' j = [] from if_neg cleared.not_used]
  refine ⟨?_, fun k b mem => ?_, fun k used => ?_,
    cleared.directory.blanked (fun _ => rfl) sound.blanked,
    cleared.directory.terminated (Nat.succ_pos _) sound.terminated⟩
  · rw [slots]
    exact sound.held.exchange j List.nodup_nil (fun b mem => absurd mem List.not_mem_nil)
      (fun b mark free => (cleared.marks b).2 ⟨mark, free⟩) fun b mem => absurd mem List.not_mem_nil
  · rw [slots] at mem
    by_cases same : k = j
    · rw [same, Function.update_self] at mem
      cases mem
    · rw [Function.update_of_ne same] at mem
      exact sound.inside k b mem
  · have ne : k ≠ j := fun same => cleared.not_used (same ▸ used)
    have before := (cleared.directory.used_ne ne).1 used
    rw [cleared.directory.inode_ne ne before, sound.kept_cleared cleared (Image.inode_mem before)]
    exact sound.covered k before

end TfsSound

/-! ## The writes of a creation -/

/-- The inodes that a creation makes. -/
structure NewInode (size : CInt) (ino : Block) : Prop where
  size : fileSize ino = size.val
  covers : Covers ino

namespace Volume

variable {s : Tfs}

/-- Zeros go to the blocks of the file. -/
theorem tfsZeroBlocks_outcome (n : Nat) (i : Nat) (s : Tfs) :
    (tfsZeroBlocks i n).Keeps s fun _ t => ∃ late, Asked s t late ∧
      ∀ request ∈ late, ∃ k < n, request = ⟨(s.buffer .inode (directWord (i + k))).toNat, .write⟩ := by
  induction n generalizing i s with
  | zero => exact .pure ⟨[], .refl s, fun _ mem => absurd mem List.not_mem_nil⟩
  | succ n ih =>
      refine Prog.Keeps.bind (Prog.Keeps.gets_bind (writeBuffer_outcome s _ _)) fun ok t wrote => ?_
      rcases wrote with ⟨rfl, rfl⟩ | ⟨rfl, rfl⟩
      · refine (ih (i + 1) _).mono fun _ u rest => ?_
        obtain ⟨late, asked, only⟩ := rest
        refine ⟨_, (Asked.didWrite _ _ _).append asked, fun request mem => ?_⟩
        rcases List.mem_append.1 mem with later | first
        · obtain ⟨k, less, rfl⟩ := only request later
          exact ⟨k + 1, by omega, by rw [didWrite_buffer, show i + 1 + k = i + (k + 1) by omega]⟩
        · exact ⟨0, Nat.succ_pos n, List.mem_singleton.1 first⟩
      · exact .pure ⟨[], .wasRefused s, fun _ mem => absurd mem List.not_mem_nil⟩

/-- What `tfs_create` has in its buffers when it writes. -/
structure Storing (n : Nat) (old : Nat → Block) (w : Tfs) (j p : Nat) (data : List Nat)
    (name : Name) (size : CInt) : Prop where
  small : n ≤ 4096
  marks : ∀ b, Marked old b → bitmapGet (w.buffer .bat) b = true
  entry : EntrySet (old 2) (w.buffer .md) j name (BitVec.ofNat 32 p)
  free : entryInode (old 2) j = 0
  short : name.length < 16
  nodup : (p :: data).Nodup
  new : ∀ b ∈ p :: data, (3 ≤ b ∧ b < n) ∧ ¬Marked old b ∧ bitmapGet (w.buffer .bat) b = true
  stored : ∀ k, ∀ less : k < data.length, (w.buffer .inode (directWord k)).toNat = data[k]
  table : tableBlocks (w.buffer .inode) = data
  sized : NewInode size (w.buffer .inode)

variable {n : Nat} {old : Nat → Block} {w : Tfs} {j p : Nat} {data : List Nat} {name : Name}
  {size : CInt} {early : List Request}

/-- **The writes of a creation**, one by one. -/
theorem Storing.point (storing : Storing n old w j p data name size) (asked : Asked s w early)
    (untouched : Untouched old w.blocks early) (unwritten : ⟨p, .write⟩ ∉ early) :
    (tfsCreateStore j data.length).Keeps w fun _ t =>
      Reaches (CreatePoint tfsListed (NewInode size) n old) s t := by
  obtain ⟨inside, -, isNew⟩ := storing.new p List.mem_cons_self
  have number : 3 ≤ p ∧ p < 4096 := ⟨inside.1, Nat.lt_of_lt_of_le inside.2 storing.small⟩
  have apart : p ∉ data := (List.nodup_cons.1 storing.nodup).1
  have named : (entryInode (w.buffer .md) j).toNat = p := by
    rw [storing.entry.inode]
    exact toNat_ofNat number.2
  refine (writeBuffer_outcome w _ _).bind fun ok t wrote => ?_
  rcases wrote with ⟨rfl, rfl⟩ | ⟨rfl, rfl⟩
  case inr => exact Reaches.unlock (asked.wasRefused_after.reaches untouched.start) _
  have asked₁ := asked.append (Asked.didWrite w 1 (w.buffer .bat))
  refine (writeBuffer_outcome _ _ _).bind fun ok t wrote => ?_
  rcases wrote with ⟨rfl, rfl⟩ | ⟨rfl, rfl⟩
  case inr =>
    exact Reaches.unlock (asked₁.wasRefused_after.reaches (untouched.bitmap storing.marks)) _
  have asked₂ := asked₁.append (Asked.didWrite _ 2 (w.buffer .md))
  refine .gets_bind ((writeBuffer_outcome _ _ _).bind fun ok t wrote => ?_)
  simp only [didWrite_buffer, named] at wrote
  rcases wrote with ⟨rfl, rfl⟩ | ⟨rfl, rfl⟩
  case inr =>
    exact Reaches.unlock (asked₂.wasRefused_after.reaches
      (untouched.directory storing.marks storing.entry storing.free number storing.short unwritten)) _
  have asked₃ := asked₂.append (Asked.didWrite _ p (w.buffer .inode))
  rw [if_pos rfl, tfsClear]
  intro r t ran
  rw [Prog.bind_modify_apply] at ran
  obtain ⟨zeroed, u, zeroes, ran⟩ := Prog.bind_returned.1 ran
  obtain ⟨late, askedLate, only⟩ := tfsZeroBlocks_outcome _ _ _ _ _ zeroes
  -- zeros go to the data blocks
  have toData : ∀ x, ⟨x, .write⟩ ∈ late → x ∈ data := by
    intro x mem
    obtain ⟨k, less, request⟩ := only _ mem
    simp only [Request.mk.injEq, and_true, Nat.zero_add] at request
    rw [request]
    change (w.buffer .inode (directWord k)).toNat ∈ data
    rw [storing.stored k less]
    exact List.getElem_mem less
  have outside : ∀ x, x ∉ data → u.blocks x = (((w.didWrite 1 (w.buffer .bat)).didWrite 2
      (w.buffer .md)).didWrite p (w.buffer .inode)).blocks x :=
    fun x apart => askedLate.kept x fun mem => apart (toData x mem)
  have notData : ∀ x < 3, x ∉ data := fun x low mem => by
    have := (storing.new x (List.mem_cons_of_mem _ mem)).1
    omega
  have isBitmap : u.blocks 1 = w.buffer .bat := by
    rw [outside 1 (notData 1 (by decide)), didWrite_blocks, Function.update_of_ne (by omega),
      didWrite_blocks, Function.update_of_ne (by decide), didWrite_blocks, Function.update_self]
  have isDirectory : u.blocks 2 = w.buffer .md := by
    rw [outside 2 (notData 2 (by decide)), didWrite_blocks, Function.update_of_ne (by omega),
      didWrite_blocks, Function.update_self]
  have isInode : u.blocks p = w.buffer .inode := by
    rw [outside p apart, didWrite_blocks, Function.update_self]
  have place : inodeOf u.blocks j = p := by rw [inodeOf, isDirectory, named]
  have mark : ∀ b ∈ p :: data, Marked u.blocks b := fun b mem => by
    obtain ⟨bound, -, set⟩ := storing.new b mem
    exact ⟨Nat.lt_of_lt_of_le bound.2 storing.small, by rw [isBitmap]; exact set⟩
  have reaches : Reaches (CreatePoint tfsListed (NewInode size) n old) s u := by
    refine (asked₃.append ⟨askedLate.served, askedLate.kept⟩).reaches
      (untouched.inode storing.marks storing.entry storing.free number storing.short isBitmap
        isDirectory ?_ ?_ ⟨?_, .inr ⟨?_, ?_⟩, ?_⟩ ⟨?_, ?_⟩)
    · intro b above marked
      have old_ : b ∉ p :: data := fun mem => (storing.new b mem).2.1 marked
      rw [List.mem_cons, not_or] at old_
      rw [outside b old_.2, didWrite_blocks, Function.update_of_ne old_.1, didWrite_blocks,
        Function.update_of_ne (by omega), didWrite_blocks, Function.update_of_ne (by omega)]
    · rw [lastWrite_append]
      cases last : lastWrite late with
      | none =>
          intro same
          have : p = 2 := Option.some.inj same
          omega
      | some x =>
          rintro ⟨⟩
          exact notData 2 (by decide) (toData 2 (lastWrite_mem last))
    · rw [place]
      exact mark p List.mem_cons_self
    · rw [place]
      exact List.mem_append_right _ List.mem_cons_self
    · rw [place, isInode]
      exact storing.sized
    · rw [place, isInode]
      intro b mem
      rw [tfsListed, storing.table] at mem
      exact mark b (List.mem_cons_of_mem _ mem)
    · rw [isInode, tfsListed, storing.table]
      exact storing.nodup
    · rw [isInode, tfsListed, storing.table]
      exact fun b mem => ⟨(storing.new b mem).1.2, (storing.new b mem).2.1⟩
  exact Prog.Keeps.ite (reaches.unlock _) (reaches.unlock _) r t ran

end Volume

/-! ## Creating -/

theorem directory_loaded (s : Tfs) :
    (s.locked.didRead (BitVec.ofNat 32 TFS_DIRECTORY_BLOCK).toNat TfsBuffer.md).buffer .md =
      s.blocks 2 := by
  rw [Volume.didRead_buffer, Function.update_self]
  rfl

section Operations

variable {s : Tfs}

/-- With everything in the buffers, the bitmap that of the image and the directory with the name. -/
theorem Volume.Buffered.storing {u w : Tfs} {j p : Nat} {data : List Nat} {filename : Name}
    {size : CInt} (sound : TfsSound s.totalblocks s.blocks) (small : s.totalblocks ≤ 4096)
    (total : u.totalblocks = s.totalblocks) (bat : u.buffer .bat = s.blocks 1)
    (md : u.buffer .md = copyName (s.blocks 2) (20 * j + 4) filename TFS_FILENAME_MAX)
    (slot : j < 25 ∧ entryInode (s.blocks 2) j = 0) (few : numBlocks size ≤ 127)
    (count : data.length = numBlocks size)
    (buffered : Volume.Buffered u w j p data (BitVec.ofNat 32 (toUint32 size.val))) :
    Volume.Storing s.totalblocks s.blocks w j p data (stringcopy filename TFS_FILENAME_MAX) size := by
  have system : ∀ b < 3, bitmapGet (u.buffer .bat) b = true := fun b low => by
    rw [bat]
    exact (sound.held.reserved b low).2
  have inside := buffered.inside system
  have table : tableBlocks (w.buffer .inode) = data := by
    refine tableFrom_eq 0 127 (by omega) (fun k less => ?_) (fun b mem => ?_) fun short => ?_
    · rw [Nat.zero_add]
      exact buffered.table k less
    · have := (inside b (List.mem_cons_of_mem _ mem)).1
      omega
    · rw [Nat.zero_add]
      exact buffered.ended _ (Nat.le_refl _) short
  have sized : fileSize (w.buffer .inode) = size.val := by
    rw [fileSize, buffered.size]
    exact toInt32_toUint32 size
  exact
    { small
      marks := fun b mark => (buffered.marks b).2 (.inl (by rw [bat]; exact mark.2))
      entry := by
        rw [buffered.directory, md]
        exact entrySet_store filename _ sound.terminated slot.1
      free := slot.2
      short := stringcopy_short filename
      nodup := buffered.nodup
      new := fun b mem => by
        have clear := (buffered.fresh b mem).2
        refine ⟨total ▸ inside b mem, fun mark => ?_, (buffered.marks b).2 (.inr mem)⟩
        rw [bat, mark.2] at clear
        cases clear
      stored := buffered.table
      table
      sized := ⟨sized, by rw [Covers, sized, table, count, numBlocks_eq (by omega)]⟩ }

variable (sound : TfsSound s.totalblocks s.blocks) (small : s.totalblocks ≤ 4096)

include sound small

/-- The part of `tfs_create` behind the search of the directory. -/
theorem tfsCreate_named (filename : Name) {size : CInt} (few : numBlocks size ≤ 127) {j : Nat}
    (slot : j < 25 ∧ entryInode (s.blocks 2) j = 0) {u : Tfs} {asked : List Request}
    (here : Volume.Asked s u asked) (reads : ∀ request ∈ asked, request.operation = .read)
    (total : u.totalblocks = s.totalblocks)
    (md : u.buffer .md = copyName (s.blocks 2) (20 * j + 4) filename TFS_FILENAME_MAX) :
    (do
      let loaded ← readBlock (BitVec.ofNat 32 TFS_ALLOCATION_BLOCK) .bat
      if loaded then tfsCreateAlloc j (numBlocks size) (toUint32 size.val)
      else unlock VFS_ERROR : Prog Tfs Int).Keeps u fun _ t =>
        Volume.Reaches (CreatePoint tfsListed (NewInode size) s.totalblocks s.blocks) s t := by
  have untouched {t : Tfs} {asked : List Request} (here : Volume.Asked s t asked)
      (reads : ∀ request ∈ asked, request.operation = .read) : Untouched s.blocks t.blocks asked :=
    here.untouched rfl sound.held.reserved reads
  refine (readBlock_outcome _ _ _).bind fun ok t read => ?_
  rcases read with ⟨rfl, rfl⟩ | ⟨rfl, rfl⟩
  case inr =>
    have refused := here.wasRefused_after
    exact (refused.reaches (untouched refused reads).start).unlock _
  have asked₁ := here.append (Volume.Asked.didRead u 1 TfsBuffer.bat)
  have reads₁ : ∀ request ∈ [⟨1, .read⟩] ++ asked, request.operation = .read := by
    rintro request (_ | ⟨_, mem⟩)
    · rfl
    · exact reads request mem
  have bat : (u.didRead 1 TfsBuffer.bat).buffer .bat = s.blocks 1 := by
    rw [Volume.didRead_buffer, Function.update_self,
      (untouched here reads).marked (sound.held.reserved 1 (by decide))]
  intro r t ran
  rw [if_pos rfl] at ran
  change tfsCreateAlloc j _ _ (u.didRead 1 TfsBuffer.bat) = _ at ran
  rcases Volume.tfsCreateAlloc_buffered (s := u.didRead 1 TfsBuffer.bat)
      (by rw [Volume.didRead_totalblocks, total]; exact small) j (numBlocks size)
      (toUint32 size.val) with ⟨v, stops, -, disk⟩ | ⟨w, p, data, step, count, buffered⟩
  · cases stops.symm.trans ran
    have kept : Volume.Asked s { v with lock := v.lock + 1 } ([⟨1, .read⟩] ++ asked) :=
      asked₁.of_disk disk
    exact kept.reaches (untouched kept reads₁).start
  · rw [step, ← count] at ran
    have storing : Volume.Storing s.totalblocks s.blocks w j p data
        (stringcopy filename TFS_FILENAME_MAX) size :=
      buffered.storing sound small (by rw [Volume.didRead_totalblocks, total]) bat
        (by rw [Volume.didRead_buffer, Function.update_of_ne (by decide), md]) slot few count
    have asked₂ := asked₁.of_disk buffered.disk
    refine storing.point asked₂ (untouched asked₂ reads₁) (fun mem => ?_) r t ran
    exact absurd (reads₁ _ mem) (by simp)

/-- Whatever requests are refused, `tfs_create` ends at one of its points. -/
theorem tfsCreate_point (filename : Name) (size : CInt) :
    (tfsCreate filename size).Keeps s fun _ t =>
      Volume.Reaches (CreatePoint tfsListed (NewInode size) s.totalblocks s.blocks) s t := by
  have reading {t : Tfs} {asked : List Request} (here : Volume.Asked s t asked)
      (reads : ∀ request ∈ asked, request.operation = .read) :
      Volume.Reaches (CreatePoint tfsListed (NewInode size) s.totalblocks s.blocks) s t :=
    here.reaches (here.untouched rfl sound.held.reserved reads).start
  have asked₀ : Volume.Asked s s.locked [] := ⟨rfl, fun _ _ => rfl⟩
  have asked₁ := asked₀.append (Volume.Asked.didRead s.locked 2 TfsBuffer.md)
  refine (Volume.lockP_outcome s).bind fun _ t here => ?_
  subst here
  by_cases many : TFS_BLOCK_SIZE / 4 - 1 < numBlocks size
  · rw [← numBlocks, if_pos many]
    exact (reading asked₀ (by simp)).unlock _
  rw [← numBlocks, if_neg many]
  refine (readBlock_outcome _ _ _).bind fun ok t read => ?_
  rcases read with ⟨rfl, rfl⟩ | ⟨rfl, rfl⟩
  case inr => exact (reading asked₀.wasRefused_after (by simp)).unlock _
  have md := directory_loaded s
  intro r t ran
  simp only [if_true, Prog.bind_gets_apply, md] at ran
  cases present : findEntry (s.blocks 2) filename with
  | some j =>
      rw [present] at ran
      exact (reading asked₁ (by simp)).unlock _ r t ran
  | none =>
      cases slot : findSlot (s.blocks 2) with
      | none =>
          rw [present, slot] at ran
          exact (reading asked₁ (by simp)).unlock _ r t ran
      | some j =>
          rw [present, slot] at ran
          simp only [Prog.bind_modify_apply] at ran
          obtain ⟨inside, unused⟩ := findSlot_some slot
          have named : Volume.Asked s ((s.locked.didRead 2 TfsBuffer.md).setBuffer .md
              (copyName ((s.locked.didRead 2 TfsBuffer.md).buffer .md) (20 * j + 4) filename
                TFS_FILENAME_MAX)) _ := asked₁.of_disk rfl
          refine tfsCreate_named sound small filename (Nat.le_of_not_lt many) ⟨inside, unused⟩ named
            (by simp) rfl ?_ r t ran
          rw [Volume.setBuffer_buffer, Function.update_self]
          exact congrArg (fun md => copyName md (20 * j + 4) filename TFS_FILENAME_MAX) md

end Operations

/-! ## Removing -/

namespace Volume

theorem tfsFree_disk (block : Word) : Prog.Fixes (fun s : Tfs => s.disk) (tfsFree block) := by
  intro s
  refine .assert_bind fun _ => .assert_bind fun _ => ?_
  intro _ t ran
  cases ran
  rfl

theorem tfsFreeBlocks_disk (n i : Nat) : Prog.Fixes (fun s : Tfs => s.disk) (tfsFreeBlocks i n) := by
  induction n generalizing i with
  | zero => exact .pure _
  | succ n ih =>
      exact .bind (.gets _) fun _ => .ite (.bind (tfsFree_disk _) fun _ => ih (i + 1)) (.pure _)

end Volume

section Removals

variable {s : Tfs} {asked : List Request} {j : Nat} {filename : Name}
  (sound : TfsSound s.totalblocks s.blocks)
  (small : s.totalblocks ≤ 4096)

/-- The writes of `tfs_remove`. -/
def tfsRemoveStore : Prog Tfs Int := do
  let stored ← writeBuffer (BitVec.ofNat 32 TFS_ALLOCATION_BLOCK) .bat
  if stored then do
    let stored ← writeBuffer (BitVec.ofNat 32 TFS_DIRECTORY_BLOCK) .md
    if stored then unlock VFS_OK else unlock VFS_ERROR
  else unlock VFS_ERROR

/-- How far a removal has come: nothing is written, or the bitmap but not the directory, or both. -/
def RemovePoint (filename : Name) (old blocks : Nat → Block) (asked : List Request) : Prop :=
  (blocks = old ∧ lastWrite asked = none) ∨
    (lastWrite asked = some 1 ∧ (∀ b, b ≠ 1 → blocks b = old b) ∧
      ∃ j, Used (blocks 2) j ∧ ¬Marked blocks (inodeOf blocks j)) ∨
    (lastWrite asked = some 2 ∧ ∃ j, entryName (old 2) j = filename ∧ Cleared old blocks j)

/-- Before anything is written. -/
theorem Volume.Asked.removePoint {t : Tfs} (here : Volume.Asked s t asked)
    (reads : ∀ request ∈ asked, request.operation = .read) :
    Volume.Reaches (RemovePoint filename s.blocks) s t :=
  here.reaches (.inl ⟨funext fun b => here.kept b fun mem => absurd (reads _ mem) (by simp),
    lastWrite_reads reads⟩)

/-- **A removal** leaves an image out of order exactly between the writes of the bitmap and of the
directory.  No inode is written. -/
theorem RemovePoint.ordered_iff {n : Nat} {old blocks : Nat → Block} (sound : TfsSound n old)
    (point : RemovePoint filename old blocks asked) :
    Ordered tfsListed (fun _ => False) old blocks asked ↔ lastWrite asked ≠ some 1 := by
  rcases point with ⟨rfl, last⟩ | ⟨last, -, j, used, unmarked⟩ | ⟨last, j, -, cleared⟩
  · refine iff_of_true (sound.owning.ordered fun k used => .inl ⟨used, rfl, rfl⟩) ?_
    rw [last]
    exact (Option.some_ne_none 1).symm
  · exact iff_of_false (fun ordered => unmarked (ordered j used).inode) (not_not_intro last)
  · refine iff_of_true ((sound.remove cleared).owning.ordered fun k used => .inl ?_) ?_
    · have ne : k ≠ j := fun same => cleared.not_used (same ▸ used)
      have before := (cleared.directory.used_ne ne).1 used
      have place := cleared.directory.inode_ne ne before
      refine ⟨before, place, ?_⟩
      rw [place]
      exact sound.kept_cleared cleared (Image.inode_mem before)
    · rw [last]
      decide

include sound small

/-- What `tfs_remove` has in its buffers when it writes. -/
structure Removing (filename : Name) (old : Nat → Block) (w : Tfs) (j : Nat) : Prop where
  used : Used (old 2) j
  named : entryName (old 2) j = filename
  directory : w.buffer .md = clearEntry (old 2) j
  marks : ∀ b, bitmapGet (w.buffer .bat) b = true ↔ bitmapGet (old 1) b = true ∧ b ∉ slotBlocks old j

theorem tfsRemoveBlocks_buffered {u : Tfs} (used : Used (s.blocks 2) j)
    (isNamed : entryName (s.blocks 2) j = filename) (md : u.buffer .md = s.blocks 2)
    (bat : u.buffer .bat = s.blocks 1) (ino : u.buffer .inode = s.blocks (inodeOf s.blocks j)) :
    ∃ w, tfsRemoveBlocks j u = tfsRemoveStore w ∧ w.disk = u.disk ∧
      Removing filename s.blocks w j := by
  have owned : inodeOf s.blocks j :: tableBlocks (u.buffer .inode) = slotBlocks s.blocks j := by
    rw [ino, Image.slotBlocks_used used]
  have below : ∀ b ∈ slotBlocks s.blocks j, b < 4096 := fun b mem =>
    Nat.lt_of_lt_of_le (sound.owned mem).2 small
  have named : (entryInode (u.buffer .md) j).toNat = inodeOf s.blocks j := by rw [md, inodeOf]
  have inside : (entryInode (u.buffer .md) j).toNat < 4096 := by
    rw [named]
    exact below _ (Image.inode_mem used)
  obtain ⟨v, ran₁, first⟩ := Volume.tfsFree_cases u inside
  have inode := first.others .inode (by decide)
  obtain ⟨w, ran₂, rest⟩ := Volume.tfsFreeBlocks_cases (TFS_BLOCK_SIZE / 4 - 1) 0 v fun b mem => by
    rw [inode] at mem
    exact below b (owned ▸ List.mem_cons_of_mem _ mem)
  have freed : Volume.Freed u w (slotBlocks s.blocks j) := by
    have both := first.append rest
    rw [named, inode, List.singleton_append] at both
    exact owned ▸ both
  have disk : w.disk = u.disk :=
    (Volume.tfsFreeBlocks_disk _ _ _ _ _ ran₂).trans (Volume.tfsFree_disk _ _ _ _ ran₁)
  have directory : w.buffer .md = s.blocks 2 := (freed.others .md (by decide)).trans md
  have cleared : (w.setWord .md (5 * j) 0).setBuffer .md
      (memcopy 1 ((w.setWord .md (5 * j) 0).buffer .md) (20 * j + 4) fun _ => 0) =
        w.setBuffer .md (clearEntry (s.blocks 2) j) := by
    simp [clearEntry, Volume.setWord, Volume.setBuffer, directory]
  refine ⟨w.setBuffer .md (clearEntry (s.blocks 2) j), ?_, disk, used, isNamed, by simp, fun b => ?_⟩
  · rw [tfsRemoveBlocks, Prog.bind_gets_apply, Prog.bind_of_returned ran₁, Prog.bind_of_returned ran₂,
      Prog.bind_modify_apply, Prog.bind_modify_apply, cleared]
    rfl
  · rw [← bat]
    exact freed.marked b

omit small in
/-- **The writes of a removal**, one by one. -/
theorem Removing.point {w : Tfs} (removing : Removing filename s.blocks w j)
    (here : Volume.Asked s w asked) (reads : ∀ request ∈ asked, request.operation = .read) :
    tfsRemoveStore.Keeps w fun _ t => Volume.Reaches (RemovePoint filename s.blocks) s t := by
  obtain ⟨used, named, directory, marks⟩ := removing
  have kept : ∀ b, w.blocks b = s.blocks b := fun b =>
    here.kept b fun mem => absurd (reads _ mem) (by simp)
  refine (writeBuffer_outcome _ _ _).bind fun ok t wrote => ?_
  rcases wrote with ⟨rfl, rfl⟩ | ⟨rfl, rfl⟩
  case inr =>
    exact (here.wasRefused_after.removePoint reads).unlock _
  have asked₁ := here.append (Volume.Asked.didWrite _ 1 (w.buffer .bat))
  refine (writeBuffer_outcome _ _ _).bind fun ok t wrote => ?_
  rcases wrote with ⟨rfl, rfl⟩ | ⟨rfl, rfl⟩
  case inr =>
    -- the entry is still there, and its inode is free
    refine Volume.Reaches.unlock
      (asked₁.wasRefused_after.reaches (.inr (.inl ⟨rfl, ?_, j, ?_, ?_⟩))) _
    · intro b ne
      change Function.update w.blocks 1 (w.buffer .bat) b = s.blocks b
      rw [Function.update_of_ne ne, kept]
    · change Used (Function.update w.blocks 1 (w.buffer .bat) 2) j
      rw [Function.update_of_ne (by decide), kept 2]
      exact used
    · change ¬Marked (Function.update w.blocks 1 (w.buffer .bat))
        (entryInode (Function.update w.blocks 1 (w.buffer .bat) 2) j).toNat
      rw [Function.update_of_ne (by decide), kept 2]
      rintro ⟨-, mark⟩
      rw [Function.update_self] at mark
      exact ((marks _).1 mark).2 (Image.inode_mem used)
  have asked₂ := asked₁.append (Volume.Asked.didWrite _ 2 (w.buffer .md))
  have gone : Cleared s.blocks (Function.update (Function.update w.blocks 1 (w.buffer .bat)) 2
      (w.buffer .md)) j :=
    { used
      marks := fun b => by
        rw [Marked, Function.update_of_ne (by decide), Function.update_self, marks, Marked, and_assoc]
      directory := by
        rw [Function.update_self, directory]
        exact entrySet_clear sound.terminated used.1
      kept := fun b notBitmap notDirectory => by
        rw [Function.update_of_ne notDirectory, Function.update_of_ne notBitmap, kept] }
  have reaches : Volume.Reaches (RemovePoint filename s.blocks) s _ :=
    asked₂.reaches (.inr (.inr ⟨rfl, j, named, gone⟩))
  exact .ite (reaches.unlock _) (reaches.unlock _)

/-- Whatever requests are refused, `tfs_remove` ends at one of its points. -/
theorem tfsRemove_point {filename : Name} (nonempty : filename ≠ []) :
    (tfsRemove filename).Keeps s fun _ t => Volume.Reaches (RemovePoint filename s.blocks) s t := by
  have asked₀ : Volume.Asked s s.locked [] := ⟨rfl, fun _ _ => rfl⟩
  have asked₁ := asked₀.append (Volume.Asked.didRead s.locked 2 TfsBuffer.md)
  have asked₂ := asked₁.append (Volume.Asked.didRead _ 1 TfsBuffer.bat)
  refine (Volume.lockP_outcome s).bind fun _ t here => ?_
  subst here
  refine (readBlock_outcome _ _ _).bind fun ok t read => ?_
  rcases read with ⟨rfl, rfl⟩ | ⟨rfl, rfl⟩
  case inr => exact (asked₀.wasRefused_after.removePoint (by simp)).unlock _
  have md := directory_loaded s
  intro r t ran
  simp only [if_true, Prog.bind_gets_apply, md] at ran
  cases found : findEntry (s.blocks 2) filename with
  | none =>
      rw [found] at ran
      exact (asked₁.removePoint (by simp)).unlock _ r t ran
  | some j =>
      rw [found] at ran
      have used : Used (s.blocks 2) j :=
        ⟨(findEntry_some found).1, findEntry_used sound.blanked nonempty found⟩
      revert r t
      refine (readBlock_outcome _ _ _).bind fun ok t read => ?_
      rcases read with ⟨rfl, rfl⟩ | ⟨rfl, rfl⟩
      case inr => exact (asked₁.wasRefused_after.removePoint (by simp)).unlock _
      refine (readBlock_outcome _ _ _).bind fun ok t read => ?_
      rcases read with ⟨rfl, rfl⟩ | ⟨rfl, rfl⟩
      case inr => exact (asked₂.wasRefused_after.removePoint (by simp)).unlock _
      have asked₃ := asked₂.append (Volume.Asked.didRead _ (inodeOf s.blocks j) TfsBuffer.inode)
      obtain ⟨w, step, disk, removing⟩ := tfsRemoveBlocks_buffered sound small
        (u := ((s.locked.didRead 2 TfsBuffer.md).didRead 1 TfsBuffer.bat).didRead (inodeOf s.blocks j)
          TfsBuffer.inode) used (findEntry_some found).2.1 (by simp) (by simp) (by simp)
      intro r t ran
      exact removing.point sound (asked₃.of_disk disk) (by simp) r t (step.symm.trans ran)

end Removals

end Buenos.Fs
