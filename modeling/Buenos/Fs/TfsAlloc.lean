/-
# Fs.TfsAlloc -- creating and removing TFS files

The allocation half of the driver on a volume whose requests are all served.  `Taken`
says that exactly the blocks `new`, all free before, were marked in the bitmap buffer and
their numbers stored in a table; until the three tables are written the disk is as it was,
so a call that fails changes nothing (`Unchanged`).

`tfsCreate_cases` and `tfsRemove_cases` are the results: a call that succeeds gives the
image with a file more (`Created`) or a file less, and any other call leaves the image
alone.
-/
import Buenos.Fs.TfsImage

namespace Buenos.Fs

open Buenos.Lib Buenos.Theory

set_option autoImplicit false

/-! ## Sizes -/

/-- Division of `int`s goes towards zero. -/
theorem tdiv_block (x : Int) : x.tdiv 512 = if 0 ≤ x then x / 512 else -(-x / 512) := by
  split
  · exact Int.tdiv_eq_ediv_of_nonneg (by assumption)
  · rw [← Int.tdiv_eq_ediv_of_nonneg (by omega), Int.neg_tdiv, Int.neg_neg]

/-- `numblocks`, as `tfs_create` computes it. -/
def numBlocks (size : CInt) : Nat :=
  toUint32 ((toInt32 (size.val + TFS_BLOCK_SIZE - 1)).tdiv TFS_BLOCK_SIZE)

/-- A number of blocks that an inode can list is the one that the size needs; a negative
size needs none. -/
theorem numBlocks_eq {size : CInt} (few : numBlocks size < 0x400000) :
    numBlocks size = blocksOf size.val.toNat := by
  obtain ⟨size, low, high⟩ := size
  have rounded : toUint32 ((toInt32 (size + 512 - 1)).tdiv 512) < 0x400000 := few
  change toUint32 ((toInt32 (size + 512 - 1)).tdiv 512) = (size.toNat + 511) / 512
  rw [tdiv_block] at rounded ⊢
  unfold toUint32 at rounded ⊢
  by_cases wraps : size + 511 < 0x80000000
  · rw [toInt32_eq (by omega) (by omega)] at rounded ⊢
    split at rounded <;> omega
  · rw [toInt32_wrap (by omega) (by omega)] at rounded ⊢
    split at rounded <;> omega

/-- A size survives being stored in the inode. -/
theorem toInt32_toUint32 (size : CInt) :
    toInt32 (BitVec.ofNat 32 (toUint32 size.val)).toNat = size.val := by
  obtain ⟨size, low, high⟩ := size
  rw [BitVec.toNat_ofNat]
  unfold toUint32
  dsimp only
  by_cases negative : 0 ≤ size
  · rw [toInt32_eq (by omega) (by omega)]
    omega
  · rw [toInt32_wrap (by omega) (by omega)]
    omega

namespace Volume

variable {s t u : Tfs} {b : TfsBuffer} {i : Nat} {new more : List Nat}

/-! ## Taking blocks -/

/-- From `s` to `t` the blocks `new` were taken, and their numbers stored in buffer `b` from
word `i` on. -/
structure Taken (s t : Tfs) (b : TfsBuffer) (i : Nat) (new : List Nat) : Prop where
  same : Volume.Same s t
  disk : t.blocks = s.blocks
  nodup : new.Nodup
  fresh : ∀ p ∈ new, p < s.totalblocks ∧ bitmapGet (s.buffer .bat) p = false
  marked : ∀ p, bitmapGet (t.buffer .bat) p = true ↔ bitmapGet (s.buffer .bat) p = true ∨ p ∈ new
  stored : ∀ k, ∀ less : k < new.length, t.buffer b (i + k) = BitVec.ofNat 32 new[k]
  words : ∀ w, w < i ∨ i + new.length ≤ w → t.buffer b w = s.buffer b w
  others : ∀ c, c ≠ b → c ≠ .bat → t.buffer c = s.buffer c

theorem Taken.refl (s : Tfs) (b : TfsBuffer) (i : Nat) : Taken s s b i [] where
  same := .refl s
  disk := rfl
  nodup := List.nodup_nil
  fresh := by simp
  marked := by simp
  stored := by simp
  words := fun _ _ => rfl
  others := fun _ _ _ => rfl

theorem Taken.cons {p : Nat} (first : Taken s t b i [p]) (rest : Taken t u b (i + 1) new) :
    Taken s u b i (p :: new) where
  same := first.same.trans rest.same
  disk := rest.disk.trans first.disk
  nodup := by
    refine List.nodup_cons.2 ⟨?_, rest.nodup⟩
    intro again
    have unmarked := (rest.fresh p again).2
    rw [(first.marked p).2 (.inr (List.mem_singleton_self p))] at unmarked
    cases unmarked
  fresh := by
    intro q mem
    rcases List.mem_cons.1 mem with rfl | later
    · exact first.fresh q (List.mem_singleton_self q)
    · obtain ⟨inside, unmarked⟩ := rest.fresh q later
      rw [first.same.totalblocks] at inside
      refine ⟨inside, ?_⟩
      cases before : bitmapGet (s.buffer .bat) q with
      | false => rfl
      | true =>
          rw [(first.marked q).2 (.inl before)] at unmarked
          cases unmarked
  marked := by
    intro q
    rw [rest.marked, first.marked, List.mem_singleton, List.mem_cons, or_assoc]
  stored := by
    intro k less
    cases k with
    | zero =>
        rw [rest.words _ (.inl (by omega))]
        exact first.stored 0 (by simp)
    | succ k =>
        have := rest.stored k (by simpa using less)
        rw [show i + (k + 1) = i + 1 + k by omega, this]
        rfl
  words := by
    intro w apart
    simp only [List.length_cons] at apart
    rw [rest.words w (by omega), first.words w (by simp only [List.length_singleton]; omega)]
  others := fun c apart notBat => (rest.others c apart notBat).trans (first.others c apart notBat)

/-- **One block.**  The first free one, or none is free. -/
theorem tfsFindnset_cases (s : Tfs) (i : Nat) (other : b ≠ .bat) :
    (∃ p t, tfsFindnset b i s = .returned (true, t) ∧ Taken s t b i [p]) ∨
      ∃ t, tfsFindnset b i s = .returned (false, t) ∧ Unchanged s t := by
  cases found : bitmapFindnset (s.buffer .bat) s.totalblocks with
  | none =>
      right
      exact ⟨{ s.setWord b i 0xffffffff#32 with refused := s.refused + 1 },
        by simp only [tfsFindnset, found], ⟨⟨rfl, rfl, rfl, rfl⟩, rfl⟩⟩
  | some pair =>
      left
      obtain ⟨p, bat⟩ := pair
      obtain ⟨inside, clear, _, rfl⟩ := bitmapFindnset_some found
      refine ⟨p, (s.setBuffer .bat (bitmapSet (s.buffer .bat) p true)).setWord b i
        (BitVec.ofNat 32 p), by simp only [tfsFindnset, found], ?_⟩
      exact
        { same := ⟨rfl, rfl, rfl, rfl⟩
          disk := rfl
          nodup := List.nodup_singleton p
          fresh := fun q mem => by
            obtain rfl := List.mem_singleton.1 mem
            exact ⟨inside, clear⟩
          marked := fun q => by
            rw [setWord_buffer, Function.update_of_ne (Ne.symm other), setBuffer_buffer,
              Function.update_self, bitmapGet_bitmapSet, List.mem_singleton]
            by_cases same : q = p
            · simp [same]
            · simp [same]
          stored := fun k less => by
            obtain rfl : k = 0 := by simpa using less
            simp
          words := fun w apart => by
            have ne : w ≠ i := by
              simp only [List.length_singleton] at apart
              omega
            simp [Function.update_of_ne ne, Function.update_of_ne other]
          others := fun c apart notBat => by
            simp [Function.update_of_ne apart, Function.update_of_ne notBat] }

/-- **The table of a new file**: `n` blocks, or fewer than `n` were free. -/
theorem tfsTakeBlocks_cases (n : Nat) :
    ∀ (i : Nat) (s : Tfs),
      (∃ t new, tfsTakeBlocks i n s = .returned (true, t) ∧ new.length = n ∧
          Taken s t .inode (directWord i) new) ∨
        ∃ t, tfsTakeBlocks i n s = .returned (false, t) ∧ Unchanged s t := by
  induction n with
  | zero => exact fun i s => .inl ⟨s, [], rfl, rfl, .refl s _ _⟩
  | succ n ih =>
      intro i s
      rcases tfsFindnset_cases s (directWord i) (b := .inode) (by decide) with
        ⟨p, t, ran, one⟩ | ⟨t, ran, kept⟩
      · have step : tfsTakeBlocks i (n + 1) s = tfsTakeBlocks (i + 1) n t := by
          rw [tfsTakeBlocks, Prog.bind_of_returned ran]
          rfl
        rw [step]
        rcases ih (i + 1) t with ⟨u, new, ran, count, rest⟩ | ⟨u, ran, kept⟩
        · left
          exact ⟨u, p :: new, ran, by simp [count], one.cons rest⟩
        · right
          exact ⟨u, ran, one.same.trans kept.same, kept.disk.trans one.disk⟩
      · right
        refine ⟨t, ?_, kept⟩
        rw [tfsTakeBlocks, Prog.bind_of_returned ran]
        rfl

/-! ## Writing the tables -/

section System

variable (ready : s.Ready) (room : 3 ≤ s.totalblocks)

include ready room

theorem loadBitmap : readBlock (BitVec.ofNat 32 TFS_ALLOCATION_BLOCK) TfsBuffer.bat s =
    .returned (true, s.didRead 1 .bat) :=
  readBlock_system ready room (by decide) .bat

theorem loadDirectory : readBlock (BitVec.ofNat 32 TFS_DIRECTORY_BLOCK) TfsBuffer.md s =
    .returned (true, s.didRead 2 .md) :=
  readBlock_system ready room (by decide) .md

theorem storeBitmap : writeBuffer (BitVec.ofNat 32 TFS_ALLOCATION_BLOCK) TfsBuffer.bat s =
    .returned (true, s.didWrite 1 (s.buffer .bat)) :=
  writeBuffer_system ready room (by decide) .bat

theorem storeDirectory : writeBuffer (BitVec.ofNat 32 TFS_DIRECTORY_BLOCK) TfsBuffer.md s =
    .returned (true, s.didWrite 2 (s.buffer .md)) :=
  writeBuffer_system ready room (by decide) .md

end System

theorem tfsSave_ready (ready : s.Ready) {k : Nat}
    (inside : (s.buffer .inode (directWord k)).toNat < s.totalblocks) :
    tfsSave k s =
      .returned (true, s.didWrite (s.buffer .inode (directWord k)).toNat (s.buffer .bat)) :=
  writeBuffer_ready ready _ .bat inside

/-- The bitmap buffer goes to every block of the table. -/
theorem tfsZeroBlocks_ready (n : Nat) :
    ∀ (i : Nat) (s : Tfs), s.Ready →
      (∀ k < n, (s.buffer .inode (directWord (i + k))).toNat < s.totalblocks) →
      ∃ t, tfsZeroBlocks i n s = .returned (true, t) ∧ Volume.Same s t ∧
        (∀ k < n, t.blocks (s.buffer .inode (directWord (i + k))).toNat = s.buffer .bat) ∧
        ∀ x, (∀ k < n, (s.buffer .inode (directWord (i + k))).toNat ≠ x) →
          t.blocks x = s.blocks x := by
  induction n with
  | zero =>
      intro i s _ _
      exact ⟨s, rfl, .refl s, by simp, fun _ _ => rfl⟩
  | succ n ih =>
      intro i s ready inside
      have bound : (s.buffer .inode (directWord i)).toNat < s.totalblocks :=
        inside 0 (Nat.succ_pos n)
      have first := tfsSave_ready ready bound
      have later : ∀ k, i + 1 + k = i + (k + 1) := fun k => by omega
      obtain ⟨t, ran, same, written, kept⟩ := ih (i + 1) _
        (ready.same (Same.didWrite (s.buffer .inode (directWord i)).toNat (s.buffer .bat)))
        fun k less => by
          rw [didWrite_buffer, later]
          exact inside (k + 1) (by omega)
      simp only [didWrite_buffer, didWrite_blocks, later] at written kept
      refine ⟨t, ?_, Same.trans (Same.didWrite _ _) same, ?_, ?_⟩
      · rw [tfsZeroBlocks, Prog.bind_of_returned first]
        exact ran
      · intro k less
        by_cases again : ∃ m < n,
            (s.buffer .inode (directWord (i + (m + 1)))).toNat =
              (s.buffer .inode (directWord (i + k))).toNat
        · obtain ⟨m, bound, same⟩ := again
          rw [← same, written m bound]
        · rw [kept _ fun m bound same => again ⟨m, bound, same⟩]
          cases k with
          | zero => rw [Nat.add_zero, Function.update_self]
          | succ k => exact absurd ⟨k, by omega, rfl⟩ again
      · intro x apart
        have other : (s.buffer .inode (directWord i)).toNat ≠ x := apart 0 (Nat.succ_pos n)
        rw [kept x fun k less => apart (k + 1) (by omega), Function.update_of_ne (Ne.symm other)]

/-- **The writes of a new file**: bitmap, directory, inode, and zeros to its blocks. -/
theorem tfsCreateStore_ready (ready : s.Ready) {j p : Nat} {data : List Nat}
    (named : (entryInode (s.buffer .md) j).toNat = p)
    (stored : ∀ k, ∀ less : k < data.length, (s.buffer .inode (directWord k)).toNat = data[k])
    (inside : ∀ b ∈ p :: data, 3 ≤ b ∧ b < s.totalblocks) (apart : p ∉ data) :
    ∃ t, tfsCreateStore j data.length s = .returned (VFS_OK, { t with lock := t.lock + 1 }) ∧
      Volume.Same s t ∧ t.blocks 1 = s.buffer .bat ∧ t.blocks 2 = s.buffer .md ∧
      t.blocks p = s.buffer .inode ∧ (∀ b ∈ data, ∀ k < 512, (t.blocks b).byte k = 0) ∧
      ∀ b, b ∉ p :: data → b ≠ 1 → b ≠ 2 → t.blocks b = s.blocks b := by
  obtain ⟨low, high⟩ := inside p List.mem_cons_self
  have room : 3 ≤ s.totalblocks := by omega
  have ready₁ := ready.same (Same.didWrite 1 (s.buffer .bat))
  have ready₂ := ready₁.same (Same.didWrite 2 (s.buffer .md))
  have inode := writeBuffer_ready ready₂ (entryInode (s.buffer .md) j) TfsBuffer.inode
    (by rw [named]; exact high)
  rw [named] at inode
  let zeros : Block := fun i => if 0 ≤ i ∧ i < TFS_BLOCK_SIZE / 4 then 0 else s.buffer .bat i
  let written : Tfs := (((s.didWrite 1 (s.buffer .bat)).didWrite 2 (s.buffer .md)).didWrite p
    (s.buffer .inode)).setBuffer .bat zeros
  have same : Volume.Same s written := ⟨rfl, rfl, rfl, rfl⟩
  have table : written.buffer .inode = s.buffer .inode := by simp [written]
  obtain ⟨t, ran, kept, zeroed, others⟩ := tfsZeroBlocks_ready data.length 0 written
    (ready.same same) fun k less => by
      rw [table, Nat.zero_add, stored k less]
      exact (inside _ (List.mem_cons_of_mem _ (List.getElem_mem less))).2
  simp only [table, Nat.zero_add] at zeroed others
  have outside : ∀ b, b ∉ data → t.blocks b = written.blocks b := by
    intro b notData
    apply others
    intro k less at_
    rw [stored k less] at at_
    exact notData (at_ ▸ List.getElem_mem less)
  have system : ∀ b < 3, b ∉ data := fun b small mem => by
    have := (inside b (List.mem_cons_of_mem _ mem)).1
    omega
  refine ⟨t, ?_, same.trans kept, ?_, ?_, ?_, ?_, ?_⟩
  · rw [tfsCreateStore, Prog.bind_of_returned (storeBitmap ready room)]
    simp only [if_true]
    rw [Prog.bind_of_returned (storeDirectory ready₁ room)]
    simp only [if_true, Prog.bind_gets_apply, didWrite_buffer]
    rw [Prog.bind_of_returned inode]
    simp only [if_true, tfsClear, Prog.bind_modify_apply, didWrite_buffer]
    exact Prog.bind_of_returned ran
  · rw [outside 1 (system 1 (by decide))]
    simp [written, Function.update_of_ne (show 1 ≠ p by omega)]
  · rw [outside 2 (system 2 (by decide))]
    simp [written, Function.update_of_ne (show 2 ≠ p by omega)]
  · rw [outside p apart]
    simp [written]
  · intro b mem k less
    obtain ⟨m, bound, rfl⟩ := List.getElem_of_mem mem
    have := zeroed m bound
    rw [stored m bound] at this
    rw [this]
    have zero : written.buffer .bat (k / 4) = 0 := by
      simp [written, zeros, TFS_BLOCK_SIZE, show k / 4 < 128 by omega]
    rw [Block.byte, zero]
    simp
  · intro b notNew notBitmap notDirectory
    simp only [List.mem_cons, not_or] at notNew
    rw [outside b notNew.2]
    simp [written, Function.update_of_ne notNew.1, Function.update_of_ne notBitmap,
      Function.update_of_ne notDirectory]

/-! ## Creating -/

/-- From `s`, with the bitmap and the directory in their buffers, to `t`, with everything
on the disk: inode block `p` and data blocks `data` for the file of entry `j`. -/
structure Allocated (s t : Tfs) (j p : Nat) (data : List Nat) (size : Word) : Prop where
  same : Volume.Same s t
  nodup : (p :: data).Nodup
  fresh : ∀ b ∈ p :: data, b < s.totalblocks ∧ bitmapGet (s.buffer .bat) b = false
  marks : ∀ b, bitmapGet (t.blocks 1) b = true ↔ bitmapGet (s.buffer .bat) b = true ∨ b ∈ p :: data
  directory : t.blocks 2 = Function.update (s.buffer .md) (5 * j) (BitVec.ofNat 32 p)
  size : t.blocks p 0 = size
  table : ∀ k, ∀ less : k < data.length, (t.blocks p (directWord k)).toNat = data[k]
  ended : ∀ k, data.length ≤ k → k < 127 → t.blocks p (directWord k) = 0
  zeros : ∀ b ∈ data, ∀ k < 512, (t.blocks b).byte k = 0
  kept : ∀ b, b ∉ p :: data → b ≠ 1 → b ≠ 2 → t.blocks b = s.blocks b

/-- From `s`, with the bitmap and the directory in their buffers, to `w`, with everything in its
buffer and nothing on the disk yet. -/
structure Buffered (s w : Tfs) (j p : Nat) (data : List Nat) (size : Word) : Prop where
  same : Volume.Same s w
  disk : w.disk = s.disk
  nodup : (p :: data).Nodup
  fresh : ∀ b ∈ p :: data, b < s.totalblocks ∧ bitmapGet (s.buffer .bat) b = false
  marks : ∀ b, bitmapGet (w.buffer .bat) b = true ↔
    bitmapGet (s.buffer .bat) b = true ∨ b ∈ p :: data
  directory : w.buffer .md = Function.update (s.buffer .md) (5 * j) (BitVec.ofNat 32 p)
  size : w.buffer .inode 0 = size
  table : ∀ k, ∀ less : k < data.length, (w.buffer .inode (directWord k)).toNat = data[k]
  ended : ∀ k, data.length ≤ k → k < 127 → w.buffer .inode (directWord k) = 0

theorem tfsFindnset_disk (b : TfsBuffer) (i : Nat) :
    Prog.Fixes (fun s : Tfs => s.disk) (tfsFindnset b i) := by
  intro s taken t ran
  unfold tfsFindnset at ran
  split at ran <;>
  · cases ran
    rfl

theorem tfsTakeBlocks_disk (n : Nat) :
    ∀ i, Prog.Fixes (fun s : Tfs => s.disk) (tfsTakeBlocks i n) := by
  induction n with
  | zero => exact fun _ => .pure true
  | succ n ih => exact fun i => .bind (tfsFindnset_disk _ _) fun _ => .ite (ih (i + 1)) (.pure false)

/-- **The allocations** of `tfs_create` are all met, or nothing has changed. -/
theorem tfsCreateAlloc_buffered (small : s.totalblocks ≤ 4096) (j numblocks size : Nat) :
    (∃ t, tfsCreateAlloc j numblocks size s =
        .returned (VFS_ERROR, { t with lock := t.lock + 1 }) ∧ Unchanged s t ∧ t.disk = s.disk) ∨
      ∃ w p data, tfsCreateAlloc j numblocks size s = tfsCreateStore j numblocks w ∧
        data.length = numblocks ∧ Buffered s w j p data (BitVec.ofNat 32 size) := by
  rcases tfsFindnset_cases s (5 * j) (b := .md) (by decide) with ⟨p, u, ran, first⟩ | ⟨t, ran, kept⟩
  · have sized : (u.setWord .inode 0 (BitVec.ofNat 32 size)).buffer .bat = u.buffer .bat := by simp
    have diskU : u.disk = s.disk := tfsFindnset_disk _ _ s _ u ran
    have step : tfsCreateAlloc j numblocks size s =
        (do
          let done ← tfsTakeBlocks 0 numblocks
          if done then do
            tfsClear .inode (directWord numblocks) (directWord (TFS_BLOCK_SIZE / 4 - 1))
            tfsCreateStore j numblocks
          else unlock VFS_ERROR : Prog Tfs Int) (u.setWord .inode 0 (BitVec.ofNat 32 size)) := by
      rw [tfsCreateAlloc, Prog.bind_of_returned ran]
      rfl
    rw [step]
    rcases tfsTakeBlocks_cases numblocks 0 (u.setWord .inode 0 (BitVec.ofNat 32 size)) with
      ⟨v, data, ran, count, rest⟩ | ⟨v, ran, kept⟩
    · right
      subst count
      have one : p ∈ [p] := List.mem_singleton_self p
      have apart : p ∉ data := by
        intro mem
        have unmarked := (rest.fresh p mem).2
        rw [sized, (first.marked p).2 (.inr one)] at unmarked
        cases unmarked
      have fresh : ∀ b ∈ p :: data, b < s.totalblocks ∧ bitmapGet (s.buffer .bat) b = false := by
        intro b mem
        rcases List.mem_cons.1 mem with rfl | later
        · exact first.fresh b one
        · obtain ⟨inside, unmarked⟩ := rest.fresh b later
          rw [sized] at unmarked
          refine ⟨by simpa [first.same.totalblocks] using inside, ?_⟩
          cases before : bitmapGet (s.buffer .bat) b with
          | false => rfl
          | true =>
              rw [(first.marked b).2 (.inl before)] at unmarked
              cases unmarked
      let cleared : Block := fun i =>
        if directWord data.length ≤ i ∧ i < directWord (TFS_BLOCK_SIZE / 4 - 1) then 0
        else v.buffer .inode i
      have inode : (v.setBuffer .inode cleared).buffer .inode = cleared := by simp
      refine ⟨v.setBuffer .inode cleared, p, data, by rw [Prog.bind_of_returned ran]; rfl, rfl, ?_⟩
      exact
        { same := first.same.trans (.trans (Same.setWord _ _ _) (rest.same.trans (Same.setBuffer _ _)))
          disk := (tfsTakeBlocks_disk _ _ _ _ v ran).trans diskU
          nodup := List.nodup_cons.2 ⟨apart, rest.nodup⟩
          fresh := fresh
          marks := fun b => by
            rw [setBuffer_buffer, Function.update_of_ne (by decide), rest.marked, sized, first.marked,
              List.mem_singleton, List.mem_cons, or_assoc]
          directory := by
            funext i
            rw [setBuffer_buffer, Function.update_of_ne (by decide), rest.others .md (by decide) (by decide),
              setWord_buffer, Function.update_of_ne (by decide)]
            by_cases here : i = 5 * j
            · rw [here, Function.update_self]
              exact first.stored 0 (by simp)
            · rw [Function.update_of_ne here]
              exact first.words i (by simp only [List.length_singleton]; omega)
          size := by
            rw [inode]
            simp only [cleared]
            rw [if_neg (by unfold directWord; omega), rest.words 0 (by unfold directWord; omega)]
            simp
          table := fun k less => by
            have at_ := rest.stored k less
            rw [show directWord 0 + k = directWord k by unfold directWord; omega] at at_
            rw [inode]
            simp only [cleared]
            rw [if_neg (by unfold directWord; omega), at_, BitVec.toNat_ofNat]
            have := (fresh _ (List.mem_cons_of_mem _ (List.getElem_mem less))).1
            omega
          ended := fun k low high => by
            rw [inode]
            exact if_pos (by unfold directWord TFS_BLOCK_SIZE; omega) }
    · left
      refine ⟨v, ?_, ⟨first.same.trans (.trans (Same.setWord _ _ _) kept.same),
        kept.disk.trans first.disk⟩, (tfsTakeBlocks_disk _ _ _ _ v ran).trans diskU⟩
      rw [Prog.bind_of_returned ran]
      rfl
  · left
    refine ⟨t, ?_, kept, tfsFindnset_disk _ _ s _ t ran⟩
    rw [tfsCreateAlloc, Prog.bind_of_returned ran]
    rfl

/-- The blocks that are taken lie behind the tables. -/
theorem Buffered.inside {w : Tfs} {j p : Nat} {data : List Nat} {size : Word}
    (buffered : Buffered s w j p data size) (system : ∀ b < 3, bitmapGet (s.buffer .bat) b = true) :
    ∀ b ∈ p :: data, 3 ≤ b ∧ b < s.totalblocks := by
  intro b mem
  obtain ⟨bound, unmarked⟩ := buffered.fresh b mem
  refine ⟨?_, bound⟩
  by_contra low
  rw [system b (by omega)] at unmarked
  cases unmarked

/-- The new entry names the new inode. -/
theorem Buffered.named {w : Tfs} {j p : Nat} {data : List Nat} {size : Word}
    (buffered : Buffered s w j p data size) (small : s.totalblocks ≤ 4096) :
    (entryInode (w.buffer .md) j).toNat = p := by
  rw [buffered.directory, entryInode, Function.update_self, BitVec.toNat_ofNat]
  have := (buffered.fresh p List.mem_cons_self).1
  omega

theorem tfsCreateAlloc_cases (ready : s.Ready)
    (system : ∀ b < 3, bitmapGet (s.buffer .bat) b = true) (j numblocks size : Nat) :
    (∃ t, tfsCreateAlloc j numblocks size s =
        .returned (VFS_ERROR, { t with lock := t.lock + 1 }) ∧ Unchanged s t) ∨
      ∃ t p data, tfsCreateAlloc j numblocks size s =
          .returned (VFS_OK, { t with lock := t.lock + 1 }) ∧ data.length = numblocks ∧
        Allocated s t j p data (BitVec.ofNat 32 size) := by
  rcases tfsCreateAlloc_buffered ready.small j numblocks size with
    ⟨t, ran, kept, -⟩ | ⟨w, p, data, step, rfl, buffered⟩
  · exact .inl ⟨t, ran, kept⟩
  right
  obtain ⟨t, written, same, bitmap, master, inode, zeros, kept⟩ :=
    tfsCreateStore_ready (ready.same buffered.same) (buffered.named ready.small) buffered.table
      (fun b mem => by
        have := buffered.inside system b mem
        rwa [← buffered.same.totalblocks] at this)
      (List.nodup_cons.1 buffered.nodup).1
  refine ⟨t, p, data, step.trans written, rfl, ?_⟩
  exact
    { same := buffered.same.trans same
      nodup := buffered.nodup
      fresh := buffered.fresh
      marks := fun b => by rw [bitmap, buffered.marks]
      directory := master.trans buffered.directory
      size := by rw [inode, buffered.size]
      table := fun k less => by rw [inode]; exact buffered.table k less
      ended := fun k low high => by rw [inode]; exact buffered.ended k low high
      zeros := zeros
      kept := fun b notNew notBitmap notDirectory => by
        rw [kept b notNew notBitmap notDirectory]
        exact congrArg (fun d : Disk => d.blocks b) buffered.disk }

/-! ## Giving blocks back -/

/-- From `s` to `t` the marks of the blocks `freed` were cleared in the bitmap buffer. -/
structure Freed (s t : Tfs) (freed : List Nat) : Prop where
  same : Volume.Same s t
  disk : t.blocks = s.blocks
  marked : ∀ b, bitmapGet (t.buffer .bat) b = true ↔
    bitmapGet (s.buffer .bat) b = true ∧ b ∉ freed
  others : ∀ c, c ≠ .bat → t.buffer c = s.buffer c

theorem Freed.refl (s : Tfs) : Freed s s [] := ⟨.refl s, rfl, by simp, fun _ _ => rfl⟩

theorem Freed.append (first : Freed s t new) (rest : Freed t u more) : Freed s u (new ++ more) where
  same := first.same.trans rest.same
  disk := rest.disk.trans first.disk
  marked := fun b => by
    rw [rest.marked, first.marked, List.mem_append, not_or, and_assoc]
  others := fun c apart => (rest.others c apart).trans (first.others c apart)

theorem tfsFree_cases (s : Tfs) {block : Word} (small : block.toNat < 4096) :
    ∃ t, tfsFree block s = .returned (⟨⟩, t) ∧ Freed s t [block.toNat] := by
  refine ⟨s.setBuffer .bat (bitmapSet (s.buffer .bat) block.toNat false), ?_, ?_⟩
  · have signed : decide (block.toNat < 0x80000000) = true := decide_eq_true (by omega)
    have inside : decide (block.toNat < 8 * TFS_BLOCK_SIZE) = true := decide_eq_true small
    rw [tfsFree, Prog.bind_assert_apply, if_pos signed, Prog.bind_assert_apply, if_pos inside]
    rfl
  · refine ⟨.setBuffer _ _, rfl, fun b => ?_, fun c apart => ?_⟩
    · rw [setBuffer_buffer, Function.update_self, bitmapGet_bitmapSet, List.mem_singleton]
      by_cases same : b = block.toNat
      · simp [same]
      · simp [same]
    · simp [Function.update_of_ne apart]

/-- The loop goes up to the first unused entry of the table. -/
theorem tfsFreeBlocks_cases (n : Nat) :
    ∀ (i : Nat) (s : Tfs), (∀ b ∈ tableFrom (s.buffer .inode) i n, b < 4096) →
      ∃ t, tfsFreeBlocks i n s = .returned (⟨⟩, t) ∧
        Freed s t (tableFrom (s.buffer .inode) i n) := by
  induction n with
  | zero => exact fun i s _ => ⟨s, rfl, .refl s⟩
  | succ n ih =>
      intro i s small
      by_cases unused : s.buffer .inode (directWord i) = 0
      · refine ⟨s, ?_, ?_⟩
        · rw [tfsFreeBlocks, Prog.bind_gets_apply, if_neg (by simpa using unused)]
          rfl
        · rw [tableFrom_stop _ unused]
          exact .refl s
      · have split : tableFrom (s.buffer .inode) i (n + 1) =
            (s.buffer .inode (directWord i)).toNat :: tableFrom (s.buffer .inode) (i + 1) n :=
          if_pos unused
        rw [split] at small ⊢
        obtain ⟨t, ran, first⟩ := tfsFree_cases s (small _ List.mem_cons_self)
        have inode := first.others .inode (by decide)
        obtain ⟨u, ran', rest⟩ := ih (i + 1) t fun b mem => by
          rw [inode] at mem
          exact small b (List.mem_cons_of_mem _ mem)
        rw [inode] at rest
        refine ⟨u, ?_, first.append rest⟩
        rw [tfsFreeBlocks, Prog.bind_gets_apply, if_pos unused, Prog.bind_of_returned ran]
        exact ran'

/-- **The writes of a removal**: the bitmap without the file's blocks, the directory without
its entry. -/
theorem tfsRemoveBlocks_ready (ready : s.Ready) (room : 3 ≤ s.totalblocks) {j p : Nat}
    (named : (entryInode (s.buffer .md) j).toNat = p)
    (small : ∀ b ∈ p :: tableBlocks (s.buffer .inode), b < 4096) :
    ∃ t, tfsRemoveBlocks j s = .returned (VFS_OK, { t with lock := t.lock + 1 }) ∧
      Volume.Same s t ∧
      (∀ b, bitmapGet (t.blocks 1) b = true ↔
        bitmapGet (s.buffer .bat) b = true ∧ b ∉ p :: tableBlocks (s.buffer .inode)) ∧
      t.blocks 2 = clearEntry (s.buffer .md) j ∧
      ∀ b, b ≠ 1 → b ≠ 2 → t.blocks b = s.blocks b := by
  have inside : (entryInode (s.buffer .md) j).toNat < 4096 := by
    rw [named]
    exact small p List.mem_cons_self
  obtain ⟨u, ran, first⟩ := tfsFree_cases s inside
  have inode := first.others .inode (by decide)
  obtain ⟨v, ran', rest⟩ := tfsFreeBlocks_cases (TFS_BLOCK_SIZE / 4 - 1) 0 u fun b mem => by
    rw [inode] at mem
    exact small b (List.mem_cons_of_mem _ mem)
  have freed : Freed s v (p :: tableBlocks (s.buffer .inode)) := by
    have both := first.append rest
    rw [named, inode, List.singleton_append] at both
    exact both
  have md : v.buffer .md = s.buffer .md := freed.others .md (by decide)
  let w : Tfs := v.setBuffer .md (clearEntry (s.buffer .md) j)
  have same : Volume.Same s w := freed.same.trans (Same.setBuffer _ _)
  have roomW : 3 ≤ w.totalblocks := by rw [same.totalblocks]; exact room
  have stored := storeBitmap (ready.same same) roomW
  have written := storeDirectory
    ((ready.same same).same (Same.didWrite 1 (w.buffer .bat))) roomW
  refine ⟨(w.didWrite 1 (w.buffer .bat)).didWrite 2 (w.buffer .md), ?_,
    same.trans (.trans (Same.didWrite _ _) (Same.didWrite _ _)), ?_, ?_, ?_⟩
  · have cleared : (v.setWord .md (5 * j) 0).setBuffer .md
        (memcopy 1 ((v.setWord .md (5 * j) 0).buffer .md) (20 * j + 4) fun _ => 0) = w := by
      simp [w, clearEntry, Volume.setWord, Volume.setBuffer, md]
    rw [tfsRemoveBlocks, Prog.bind_gets_apply, Prog.bind_of_returned ran,
      Prog.bind_of_returned ran', Prog.bind_modify_apply, Prog.bind_modify_apply, cleared,
      Prog.bind_of_returned stored]
    simp only [if_true]
    rw [Prog.bind_of_returned written]
    rfl
  · intro b
    rw [← freed.marked]
    simp [w]
  · simp [w]
  · intro b notBitmap notDirectory
    have disk : w.blocks = s.blocks := freed.disk
    simp [Function.update_of_ne notBitmap, Function.update_of_ne notDirectory, disk]

end Volume

/-- What creating a file of `size` bytes does to the image. -/
structure Created (n : Nat) (blocks blocks' : Nat → Block) (filename : Name) (size : CInt)
    (j p : Nat) (data : List Nat) : Prop where
  absent : findEntry (blocks 2) filename = none
  stored : Stored n blocks blocks' j (stringcopy filename TFS_FILENAME_MAX) p data
  count : data.length = blocksOf size.val.toNat
  size : fileSize (blocks' p) = size.val
  ended : ∀ k, data.length ≤ k → k < 127 → blocks' p (directWord k) = 0
  zeros : ∀ b ∈ data, ∀ k < 512, (blocks' b).byte k = 0

/-- What was allocated is a file more. -/
theorem Volume.Allocated.created {n : Nat} {blocks : Nat → Block} {u t : Tfs} {filename : Name}
    {size : CInt} {j p : Nat} {data : List Nat} (small : n ≤ 4096) (image : Image n blocks)
    (total : u.totalblocks = n) (bat : u.buffer .bat = blocks 1)
    (md : u.buffer .md = copyName (blocks 2) (20 * j + 4) filename TFS_FILENAME_MAX)
    (disk : u.blocks = blocks) (absent : findEntry (blocks 2) filename = none)
    (free : j < 25 ∧ entryInode (blocks 2) j = 0) (few : numBlocks size ≤ 127)
    (count : data.length = numBlocks size)
    (made : Volume.Allocated u t j p data (BitVec.ofNat 32 (toUint32 size.val))) :
    Created n blocks t.blocks filename size j p data := by
  have fresh : ∀ b ∈ p :: data, b < n ∧ ¬ Marked blocks b := by
    intro b mem
    obtain ⟨inside, unmarked⟩ := made.fresh b mem
    rw [total] at inside
    refine ⟨inside, fun marked => ?_⟩
    rw [bat, marked.2] at unmarked
    cases unmarked
  have table : tableBlocks (t.blocks p) = data := by
    apply tableFrom_eq 0 127 (by omega)
    · intro k less
      rw [Nat.zero_add]
      exact made.table k less
    · intro b mem zero
      exact (fresh b (List.mem_cons_of_mem _ mem)).2 ((image.exact.marked b).2 (.inl (by omega)))
    · intro short
      rw [Nat.zero_add]
      exact made.ended _ (Nat.le_refl _) short
  have blocksCount := numBlocks_eq (Nat.lt_of_le_of_lt few (by decide))
  have sized : fileSize (t.blocks p) = size.val := by
    rw [fileSize, made.size]
    exact toInt32_toUint32 size
  exact
    { absent := absent
      stored :=
        { free := free.2
          nodup := made.nodup
          fresh := fresh
          marks := fun b => by
            unfold Marked
            rw [made.marks, bat]
            constructor
            · rintro ⟨bound, old | new⟩
              · exact .inl ⟨bound, old⟩
              · exact .inr new
            · rintro (⟨bound, old⟩ | new)
              · exact ⟨bound, .inl old⟩
              · exact ⟨Nat.lt_of_lt_of_le (fresh b new).1 small, .inr new⟩
          directory := by
            rw [made.directory, md]
            exact entrySet_store filename _ image.terminated free.1
          short := stringcopy_short filename
          table := table
          covered := by
            rw [sized]
            omega
          kept := fun b notNew notBitmap notDirectory => by
            rw [made.kept b notNew notBitmap notDirectory, disk] }
      count := count.trans blocksCount
      size := sized
      ended := made.ended
      zeros := made.zeros }

section Operations

variable {s : Tfs} (ready : s.Ready) (free : 0 < s.lock) (room : 3 ≤ s.totalblocks)
  (image : Image s.totalblocks s.blocks)

include ready free room image

/-- **`tfs_open`** gives the inode's block as the fileid. -/
theorem tfsOpen_cases {filename : Name} (nonempty : filename ≠ []) :
    ∃ t, Volume.Unchanged s t ∧
      ((findEntry (s.blocks 2) filename = none ∧
        tfsOpen filename s = .returned (VFS_NOT_FOUND, t)) ∨
      ∃ j, findEntry (s.blocks 2) filename = some j ∧
        tfsOpen filename s = .returned ((inodeOf s.blocks j : Int), t)) := by
  have loaded : Volume.Same s.locked (s.locked.didRead 2 TfsBuffer.md) := .didRead 2 _
  refine ⟨_, Volume.Unchanged.unlock ⟨loaded, rfl⟩, ?_⟩
  rw [tfsOpen, Prog.bind_of_returned (Volume.lockP_free free),
    Prog.bind_of_returned (Volume.loadDirectory ready.locked room)]
  simp only [if_true, Prog.bind_gets_apply, Volume.didRead_buffer, Function.update_self,
    Volume.locked_blocks]
  cases found : findEntry (s.blocks 2) filename with
  | none => exact .inl ⟨rfl, rfl⟩
  | some j =>
      right
      have used : Used (s.blocks 2) j :=
        ⟨(findEntry_some found).1, findEntry_used image.blanked nonempty found⟩
      have small := ready.small
      have number : toInt32 (entryInode (s.blocks 2) j).toNat = (inodeOf s.blocks j : Int) := by
        have := image.inode_inside used
        unfold inodeOf at this ⊢
        exact toInt32_eq (by omega) (by omega)
      refine ⟨j, rfl, ?_⟩
      dsimp only
      rw [number]
      rfl

/-- **`tfs_create`** makes the file or changes nothing. -/
theorem tfsCreate_cases (filename : Name) (size : CInt) :
    (∃ t, tfsCreate filename size s = .returned (VFS_ERROR, t) ∧ Volume.Unchanged s t) ∨
      ∃ t j p data, tfsCreate filename size s = .returned (VFS_OK, t) ∧ Volume.Same s t ∧
        Created s.totalblocks s.blocks t.blocks filename size j p data := by
  have unchanged : ∀ t : Tfs, Volume.Same s.locked t → t.blocks = s.blocks →
      Volume.Unchanged s { t with lock := t.lock + 1 } := fun t same disk =>
    Volume.Unchanged.unlock ⟨same, disk⟩
  have computed : toUint32 ((toInt32 (size.val + TFS_BLOCK_SIZE - 1)).tdiv TFS_BLOCK_SIZE) =
      numBlocks size := rfl
  simp only [tfsCreate, computed, Prog.bind_of_returned (Volume.lockP_free free)]
  by_cases many : TFS_BLOCK_SIZE / 4 - 1 < numBlocks size
  · left
    rw [if_pos many]
    exact ⟨_, rfl, unchanged _ (.refl _) rfl⟩
  · have few : numBlocks size ≤ 127 := Nat.le_of_not_lt many
    rw [if_neg many, Prog.bind_of_returned (Volume.loadDirectory ready.locked room)]
    simp only [if_true, Prog.bind_gets_apply, Volume.didRead_buffer, Function.update_self,
      Volume.locked_blocks]
    have loaded : Volume.Same s.locked (s.locked.didRead 2 TfsBuffer.md) := .didRead 2 _
    cases present : findEntry (s.blocks 2) filename with
    | some j => exact .inl ⟨_, rfl, unchanged _ loaded rfl⟩
    | none =>
        cases slot : findSlot (s.blocks 2) with
        | none => exact .inl ⟨_, rfl, unchanged _ loaded rfl⟩
        | some j =>
            obtain ⟨inside, unused⟩ := findSlot_some slot
            let named : Tfs := (s.locked.didRead 2 .md).setBuffer .md
              (copyName (s.blocks 2) (20 * j + 4) filename TFS_FILENAME_MAX)
            have sameNamed : Volume.Same s.locked named := loaded.trans (.setBuffer _ _)
            have bitmap := Volume.loadBitmap (ready.locked.same sameNamed) room
            have same : Volume.Same s.locked (named.didRead 1 TfsBuffer.bat) :=
              sameNamed.trans (.didRead _ _)
            have bat : (named.didRead 1 TfsBuffer.bat).buffer .bat = s.blocks 1 := by
              simp [named]
            simp only [Prog.bind_modify_apply, Volume.didRead_buffer, Function.update_self]
            have step := Prog.bind_of_returned (f := fun loaded =>
              if loaded then tfsCreateAlloc j (numBlocks size) (toUint32 size.val)
              else unlock VFS_ERROR) bitmap
            have marked : ∀ b, Marked s.blocks b ↔
                b < 4096 ∧ bitmapGet ((named.didRead 1 TfsBuffer.bat).buffer .bat) b = true :=
              fun b => by rw [bat]; rfl
            rcases Volume.tfsCreateAlloc_cases (ready.locked.same same)
              (fun b small => ((marked b).1 ((image.exact.marked b).2 (.inl small))).2) j
              (numBlocks size) (toUint32 size.val) with ⟨t, ran, kept⟩ | ⟨t, p, data, ran, count, made⟩
            · left
              refine ⟨_, step.trans ran, unchanged t (same.trans kept.same) ?_⟩
              exact kept.disk
            · right
              refine ⟨_, j, p, data, step.trans ran, (same.trans made.same).unlock, ?_⟩
              exact Volume.Allocated.created (u := named.didRead 1 TfsBuffer.bat) (t := t)
                ready.small image rfl bat (by simp [named]) rfl present ⟨inside, unused⟩ few count
                made

/-- `tfs_remove` of a file that is found: what it writes to the bitmap and the directory. -/
theorem tfsRemove_found {filename : Name} {j : Nat}
    (found : findEntry (s.blocks 2) filename = some j) (used : Used (s.blocks 2) j) :
    ∃ t, tfsRemove filename s = .returned (VFS_OK, t) ∧ Volume.Same s t ∧
      (∀ b, bitmapGet (t.blocks 1) b = true ↔
        bitmapGet (s.blocks 1) b = true ∧ b ∉ slotBlocks s.blocks j) ∧
      t.blocks 2 = clearEntry (s.blocks 2) j ∧
      ∀ b, b ≠ 1 → b ≠ 2 → t.blocks b = s.blocks b := by
  have loaded : Volume.Same s.locked (s.locked.didRead 2 TfsBuffer.md) := .didRead 2 _
  obtain ⟨low, high⟩ := image.inode_inside used
  have small := ready.small
  have sameBat := loaded.trans (Volume.Same.didRead 1 TfsBuffer.bat)
  have inode : readBlock (entryInode (s.blocks 2) j) TfsBuffer.inode _ = _ :=
    Volume.readBlock_ready (ready.locked.same sameBat) TfsBuffer.inode high
  have same := sameBat.trans (Volume.Same.didRead (inodeOf s.blocks j) TfsBuffer.inode)
  have start : tfsRemove filename s =
      _ := Prog.bind_of_returned (Volume.lockP_free free)
  rw [start, Prog.bind_of_returned (Volume.loadDirectory ready.locked room)]
  simp only [if_true, Prog.bind_gets_apply, Volume.didRead_buffer, Function.update_self,
    Volume.locked_blocks, found]
  rw [Prog.bind_of_returned (Volume.loadBitmap (ready.locked.same loaded) room)]
  simp only [if_true]
  rw [Prog.bind_of_returned inode]
  simp only [if_true]
  obtain ⟨t, ran, kept, marks, directory, others⟩ := Volume.tfsRemoveBlocks_ready
    (s := ((s.locked.didRead 2 TfsBuffer.md).didRead 1 TfsBuffer.bat).didRead
      (inodeOf s.blocks j) TfsBuffer.inode) (ready.locked.same same) room (j := j)
    (p := inodeOf s.blocks j) (by simp [inodeOf])
    fun b mem => by
      have owned := image.owned (j := j) (b := b)
      rw [Image.slotBlocks_used used] at owned
      have := (owned (by simpa using mem)).2
      omega
  have bits : ∀ b, bitmapGet (t.blocks 1) b = true ↔
      bitmapGet (s.blocks 1) b = true ∧ b ∉ slotBlocks s.blocks j := fun b => by
    rw [Image.slotBlocks_used used]
    simpa using marks b
  have entry : t.blocks 2 = clearEntry (s.blocks 2) j := by simpa using directory
  exact ⟨_, ran, (same.trans kept).unlock, bits, entry, others⟩

/-- **`tfs_remove`** takes the first file with the name, if there is one. -/
theorem tfsRemove_cases {filename : Name} (nonempty : filename ≠ []) :
    (findEntry (s.blocks 2) filename = none ∧
      ∃ t, tfsRemove filename s = .returned (VFS_NOT_FOUND, t) ∧ Volume.Unchanged s t) ∨
      ∃ t j, findEntry (s.blocks 2) filename = some j ∧
        tfsRemove filename s = .returned (VFS_OK, t) ∧ Volume.Same s t ∧
        Cleared s.blocks t.blocks j := by
  cases found : findEntry (s.blocks 2) filename with
  | none =>
      have loaded : Volume.Same s.locked (s.locked.didRead 2 TfsBuffer.md) := .didRead 2 _
      refine .inl ⟨rfl, _, ?_, Volume.Unchanged.unlock ⟨loaded, rfl⟩⟩
      rw [tfsRemove, Prog.bind_of_returned (Volume.lockP_free free),
        Prog.bind_of_returned (Volume.loadDirectory ready.locked room)]
      simp only [if_true, Prog.bind_gets_apply, Volume.didRead_buffer, Function.update_self,
        Volume.locked_blocks, found]
      rfl
  | some j =>
      right
      have used : Used (s.blocks 2) j :=
        ⟨(findEntry_some found).1, findEntry_used image.blanked nonempty found⟩
      obtain ⟨t, ran, same, marks, directory, others⟩ :=
        tfsRemove_found ready free room image found used
      have cleared := entrySet_clear image.terminated used.1
      rw [← directory] at cleared
      exact ⟨t, j, rfl, ran, same, used,
        fun b => (and_congr_right fun _ => marks b).trans and_assoc.symm, cleared, others⟩

end Operations

end Buenos.Fs
