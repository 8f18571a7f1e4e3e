/-
# Fs.BlockBitmap -- the bitmaps of NewFS that span several blocks

Bit `pos` should be bit `pos % 4096` of block `1 + pos / 4096` (`bitAt`).  `blockbitmap_get` and
`blockbitmap_set` use one and the same block for a position, and different bits for different
positions (`get_after_set`), but the rounding term takes every position that is not a multiple of
4096 one block too far: `blockbitmap_stored_exact`.

`blockbitmap_findnset` never moves on from block 0, the superblock.  It sets a bit there, or finds
none and goes on until an assertion fails; it is right only where it does not enter its loop
(`blockbitmapFindnset_exact`).
-/
import Buenos.Fs.NewFs

namespace Buenos.Fs

open Buenos.Lib Buenos.Theory

set_option autoImplicit false

namespace NewFs

/-! ## Served requests -/

/-- After a served read of a block. -/
def didAsk (s : NewFs) (block : Nat) : NewFs :=
  { s with disk := { s.disk with asked := s.disk.asked + 1, served := ⟨block, .read⟩ :: s.disk.served } }

/-- After a served write of `content` to a block. -/
def didWrite (s : NewFs) (block : Nat) (content : Block) : NewFs :=
  { s with
    disk :=
      { s.disk with
        blocks := Function.update s.disk.blocks block content
        asked := s.disk.asked + 1
        served := ⟨block, .write⟩ :: s.disk.served } }

/-- Every request is served, and the directory is on the disk. -/
structure Served (s : NewFs) : Prop where
  answers : ∀ n, s.disk.answers n = true
  onDisk : (newfsDirectoryBlock s.totalblocks).toNat < s.disk.totalBlocks

variable {s : NewFs}

theorem Served.didAsk (served : s.Served) (block : Nat) : (s.didAsk block).Served :=
  ⟨served.answers, served.onDisk⟩

theorem Served.didWrite (served : s.Served) (block : Nat) (content : Block) :
    (s.didWrite block content).Served := ⟨served.answers, served.onDisk⟩

theorem readStack_served (served : s.Served) {block : Word}
    (inside : block.toNat < s.disk.totalBlocks) :
    readStack block s = .returned (s.disk.blocks block.toNat, s.didAsk block.toNat) := by
  simp only [readStack, diskSubmitRequest, served.answers, if_true, inside]
  rfl

theorem readBlock_served (served : s.Served) {block : Word}
    (inside : block.toNat < s.disk.totalBlocks) (buffer : Nat) :
    NewFs.readBlock block buffer s =
      .returned (true, (s.didAsk block.toNat).load buffer (s.disk.blocks block.toNat)) := by
  simp only [NewFs.readBlock, diskSubmitRequest, served.answers, if_true, inside]
  rfl

theorem writeBlock_served (served : s.Served) {block : Word}
    (inside : block.toNat < s.disk.totalBlocks) (content : Block) :
    NewFs.writeBlock block content s = .returned (true, s.didWrite block.toNat content) := by
  simp only [NewFs.writeBlock, Prog.zoom, diskSubmitRequest, served.answers, if_true, inside]
  rfl

/-! ## Requests that return -/

variable {t : NewFs} {block : Word}

/-- What a read leaves as it was. -/
structure SameDisk (s t : NewFs) : Prop where
  blocks : t.disk.blocks = s.disk.blocks
  answers : t.disk.answers = s.disk.answers
  totalBlocks : t.disk.totalBlocks = s.disk.totalBlocks
  totalblocks : t.totalblocks = s.totalblocks

theorem SameDisk.refl (s : NewFs) : SameDisk s s := ⟨rfl, rfl, rfl, rfl⟩

instance : Std.Refl SameDisk := ⟨SameDisk.refl⟩

instance : IsTrans NewFs SameDisk :=
  ⟨fun _ _ _ first second => ⟨second.blocks.trans first.blocks, second.answers.trans first.answers,
    second.totalBlocks.trans first.totalBlocks, second.totalblocks.trans first.totalblocks⟩⟩

theorem readBlock_returned {buffer : Nat} {ok : Bool}
    (ran : NewFs.readBlock block buffer s = .returned (ok, t)) :
    SameDisk s t ∧ ((∀ n, s.disk.answers n = true) → ok = true) ∧
      ∀ w, w < buffer ∨ buffer + 128 ≤ w → t.memory w = s.memory w := by
  unfold NewFs.readBlock at ran
  cases request : diskSubmitRequest ⟨block.toNat, .read⟩ id s.disk with
  | stopped why => simp [request] at ran
  | returned pair =>
      obtain ⟨served, d⟩ := pair
      obtain ⟨answered, disk⟩ := diskSubmitRequest_returned request
      cases served with
      | false =>
          simp only [request, Outcome.returned.injEq, Prod.mk.injEq] at ran
          obtain ⟨rfl, rfl⟩ := ran
          subst disk
          exact ⟨⟨rfl, rfl, rfl, rfl⟩, fun answers => answered.trans (answers _), fun _ _ => rfl⟩
      | true =>
          simp only [request, Outcome.returned.injEq, Prod.mk.injEq] at ran
          obtain ⟨rfl, rfl⟩ := ran
          subst disk
          refine ⟨⟨rfl, rfl, rfl, rfl⟩, fun _ => rfl, fun w outside => if_neg ?_⟩
          omega

theorem readStack_returned {content : Block} (ran : readStack block s = .returned (content, t)) :
    SameDisk s t ∧ t.memory = s.memory ∧
      ((∀ n, s.disk.answers n = true) → content = s.disk.blocks block.toNat) := by
  unfold readStack at ran
  cases request : diskSubmitRequest ⟨block.toNat, .read⟩ id s.disk with
  | stopped why => simp [request] at ran
  | returned pair =>
      obtain ⟨served, d⟩ := pair
      obtain ⟨answered, disk⟩ := diskSubmitRequest_returned request
      cases served with
      | false =>
          simp only [request, Outcome.returned.injEq, Prod.mk.injEq] at ran
          obtain ⟨-, rfl⟩ := ran
          subst disk
          refine ⟨⟨rfl, rfl, rfl, rfl⟩, rfl, fun answers => ?_⟩
          rw [answers] at answered
          cases answered
      | true =>
          simp only [request, Outcome.returned.injEq, Prod.mk.injEq] at ran
          obtain ⟨rfl, rfl⟩ := ran
          subst disk
          exact ⟨⟨rfl, rfl, rfl, rfl⟩, rfl, fun _ => rfl⟩

/-- After a write of `content` to block `b`, or of nothing. -/
structure Wrote (b : Nat) (content : Block) (ok : Bool) (s t : NewFs) : Prop where
  blocks : t.disk.blocks = if ok then Function.update s.disk.blocks b content else s.disk.blocks
  answers : t.disk.answers = s.disk.answers
  totalblocks : t.totalblocks = s.totalblocks
  memory : t.memory = s.memory
  served : (∀ n, s.disk.answers n = true) → ok = true

theorem writeBlock_returned {content : Block} {ok : Bool}
    (ran : NewFs.writeBlock block content s = .returned (ok, t)) : Wrote block.toNat content ok s t := by
  obtain ⟨d, request, rfl⟩ := Prog.zoom_returned.1 ran
  obtain ⟨answered, rfl⟩ := diskSubmitRequest_returned request
  refine ⟨?_, ?_, rfl, rfl, fun answers => answered.trans (answers _)⟩
  · cases ok <;> rfl
  · cases ok <;> rfl

/-- The other blocks stay, whether the request is served or not. -/
theorem Wrote.others {b c : Nat} {content : Block} {ok : Bool} (wrote : Wrote b content ok s t) (other : c ≠ b) :
    t.disk.blocks c = s.disk.blocks c := by
  rw [wrote.blocks]
  split
  · exact Function.update_of_ne other _ _
  · rfl

end NewFs

/-! ## Where a bit is and where it should be -/

/-- The bit of a position where it should be. -/
def bitAt (blocks : Nat → Block) (pos : Nat) : Bool :=
  bitmapGet (blocks (NEWFS_ALLOCATION_BLOCK + pos / NEWFS_BLOCK_BITS)) (pos % NEWFS_BLOCK_BITS)

/-- The disk with the bit of a position set where it should be, and nothing else changed. -/
def setBitAt (blocks : Nat → Block) (pos : Nat) (value : Bool) : Nat → Block :=
  Function.update blocks (NEWFS_ALLOCATION_BLOCK + pos / NEWFS_BLOCK_BITS)
    (bitmapSet (blocks (NEWFS_ALLOCATION_BLOCK + pos / NEWFS_BLOCK_BITS)) (pos % NEWFS_BLOCK_BITS)
      value)

/-- The bit that the functions use for a position. -/
def usedBit (blocks : Nat → Block) (pos : Nat) : Bool :=
  bitmapGet (blocks (bitmapBlock pos)) (pos % NEWFS_BLOCK_BITS)

theorem bitmapBlock_eq (pos : Nat) : bitmapBlock pos =
    if pos % 4096 = 0 then pos / 4096 + 1 else pos / 4096 + 2 := by
  unfold bitmapBlock NEWFS_BLOCK_BITS NEWFS_BLOCK_SIZE
  split <;> rfl

/-- Distinct positions use distinct bits. -/
theorem bitmapBlock_injective {p q : Nat} (block : bitmapBlock q = bitmapBlock p)
    (bit : q % NEWFS_BLOCK_BITS = p % NEWFS_BLOCK_BITS) : q = p := by
  rw [bitmapBlock_eq, bitmapBlock_eq] at block
  unfold NEWFS_BLOCK_BITS NEWFS_BLOCK_SIZE at bit
  split at block <;> split at block <;> omega

section Positions

variable {s : NewFs} {pos : Nat}

theorem directoryBlock_toNat (totalblocks : Word) :
    (newfsDirectoryBlock totalblocks).toNat =
      1 + totalblocks.toNat / 4096 + if totalblocks.toNat % 4096 = 0 then 0 else 1 := by
  have bound := totalblocks.isLt
  unfold newfsDirectoryBlock NEWFS_ALLOCATION_BLOCK NEWFS_BLOCK_BITS NEWFS_BLOCK_SIZE
  rw [BitVec.toNat_ofNat, Nat.mod_eq_of_lt]
  split <;> omega

/-- The block used for a position is at most the directory block. -/
theorem bitmapBlock_le (inside : pos < s.totalblocks.toNat) :
    bitmapBlock pos ≤ (newfsDirectoryBlock s.totalblocks).toNat := by
  rw [bitmapBlock_eq, directoryBlock_toNat]
  split <;> split <;> omega

theorem bitmapBlock_word (inside : pos < s.totalblocks.toNat) :
    (BitVec.ofNat 32 (bitmapBlock pos)).toNat = bitmapBlock pos := by
  have le := bitmapBlock_le inside
  have bound := (newfsDirectoryBlock s.totalblocks).isLt
  rw [BitVec.toNat_ofNat, Nat.mod_eq_of_lt (by omega)]

theorem bitmapBlock_onDisk (served : s.Served) (inside : pos < s.totalblocks.toNat) :
    (BitVec.ofNat 32 (bitmapBlock pos)).toNat < s.disk.totalBlocks := by
  rw [bitmapBlock_word inside]
  exact (bitmapBlock_le inside).trans_lt served.onDisk

/-- The number of blocks as the `int` that the functions get. -/
theorem totalblocks_toInt {w : Word} (inside : (pos : Int) < w.toInt) :
    w.toInt = w.toNat ∧ pos < w.toNat := by
  have bound := w.isLt
  rw [BitVec.toInt_eq_toNat_cond] at inside ⊢
  split at inside <;> omega

/-- A position read. -/
theorem blockbitmapGet_eq (served : s.Served) (inside : (pos : Int) < s.totalblocks.toInt) :
    blockbitmapGet pos s.totalblocks.toInt s =
      .returned (usedBit s.disk.blocks pos, s.didAsk (bitmapBlock pos)) := by
  have low := (totalblocks_toInt inside).2
  have word := bitmapBlock_word low
  have onDisk := bitmapBlock_onDisk served low
  have read := NewFs.readStack_served served onDisk
  rw [word] at read
  simp only [blockbitmapGet]
  rw [Prog.bind_assert_apply, if_pos (by simp), Prog.bind_assert_apply, if_pos (by simpa using inside)]
  simp only [Int.toNat_natCast]
  rw [Prog.bind_of_returned read]
  rfl

/-- After a served `blockbitmap_set`. -/
def didSetBit (s : NewFs) (pos : Nat) (value : Bool) : NewFs :=
  (s.didAsk (bitmapBlock pos)).didWrite (bitmapBlock pos)
    (bitmapSet (s.disk.blocks (bitmapBlock pos)) (pos % NEWFS_BLOCK_BITS) value)

/-- A position written. -/
theorem blockbitmapSet_eq (served : s.Served) (inside : (pos : Int) < s.totalblocks.toInt)
    (value : Bool) :
    blockbitmapSet pos s.totalblocks.toInt value s = .returned ((), didSetBit s pos value) := by
  have low := (totalblocks_toInt inside).2
  have word := bitmapBlock_word low
  have onDisk := bitmapBlock_onDisk served low
  have read := NewFs.readStack_served served onDisk
  have written := NewFs.writeBlock_served (served.didAsk (bitmapBlock pos)) onDisk
  rw [word] at read written
  simp only [blockbitmapSet]
  rw [Prog.bind_assert_apply, if_pos (by simp), Prog.bind_assert_apply, if_pos (by simpa using inside)]
  simp only [Int.toNat_natCast]
  rw [Prog.bind_of_returned read, Prog.bind_of_returned (written _)]
  rfl

/-- **A bit that is set is the bit that is read**, and the others stay. -/
theorem usedBit_didSetBit (s : NewFs) (pos q : Nat) (value : Bool) :
    usedBit (didSetBit s pos value).disk.blocks q =
      if q = pos then value else usedBit s.disk.blocks q := by
  have blocks : (didSetBit s pos value).disk.blocks =
      Function.update s.disk.blocks (bitmapBlock pos)
        (bitmapSet (s.disk.blocks (bitmapBlock pos)) (pos % NEWFS_BLOCK_BITS) value) := rfl
  rw [usedBit, blocks, usedBit]
  by_cases block : bitmapBlock q = bitmapBlock pos
  · rw [block, Function.update_self, bitmapGet_bitmapSet]
    by_cases same : q = pos
    · rw [if_pos same, if_pos (by rw [same])]
    · rw [if_neg same, if_neg fun bit => same (bitmapBlock_injective block bit)]
  · rw [Function.update_of_ne block, if_neg fun same => block (by rw [same])]

end Positions

/-- What is claimed of the functions for one position: they ask for allocation blocks only, the bit
is where it should be, setting it changes nothing else, and every position read afterwards is as
before, or the value set. -/
structure BitStored (s : NewFs) (pos : Nat) : Prop where
  get : ∃ block t, blockbitmapGet pos s.totalblocks.toInt s =
      .returned (bitAt s.disk.blocks pos, t) ∧ t.disk.blocks = s.disk.blocks ∧
    t.disk.served = ⟨block, .read⟩ :: s.disk.served ∧ NEWFS_ALLOCATION_BLOCK ≤ block ∧
      block < (newfsDirectoryBlock s.totalblocks).toNat
  set : ∀ value, ∃ block t, blockbitmapSet pos s.totalblocks.toInt value s = .returned ((), t) ∧
    t.disk.blocks = setBitAt s.disk.blocks pos value ∧
    t.disk.served = ⟨block, .write⟩ :: ⟨block, .read⟩ :: s.disk.served ∧
      NEWFS_ALLOCATION_BLOCK ≤ block ∧ block < (newfsDirectoryBlock s.totalblocks).toNat ∧
      ∀ q : Nat, (q : Int) < s.totalblocks.toInt → ∃ old u v,
        blockbitmapGet q s.totalblocks.toInt s = .returned (old, u) ∧
          blockbitmapGet q s.totalblocks.toInt t =
            .returned (if q = pos then value else old, v)

/-- A multiple of 4096 is looked up in its own block. -/
theorem bitmapBlock_even {pos : Nat} (even : pos % NEWFS_BLOCK_BITS = 0) :
    bitmapBlock pos = NEWFS_ALLOCATION_BLOCK + pos / NEWFS_BLOCK_BITS := by
  rw [bitmapBlock, if_pos even, NEWFS_ALLOCATION_BLOCK]
  omega

theorem bitmapBlock_odd {pos : Nat} (odd : pos % NEWFS_BLOCK_BITS ≠ 0) :
    bitmapBlock pos ≠ NEWFS_ALLOCATION_BLOCK + pos / NEWFS_BLOCK_BITS := by
  rw [bitmapBlock, if_neg odd, NEWFS_ALLOCATION_BLOCK]
  omega

/-- **Where a bit is stored.**  The functions keep the bit of a position where it should be exactly
when the position is a multiple of 4096. -/
theorem blockbitmap_stored_exact (s : NewFs) (served : s.Served) (pos : Nat)
    (inside : (pos : Int) < s.totalblocks.toInt) :
    BitStored s pos ↔ pos % NEWFS_BLOCK_BITS = 0 := by
  have low := (totalblocks_toInt inside).2
  constructor
  · intro stored
    by_contra odd
    -- a write of the opposite of what the wrong block holds
    obtain ⟨block, t, ran, blocks, -⟩ := stored.set (!usedBit s.disk.blocks pos)
    rw [blockbitmapSet_eq served inside] at ran
    cases ran
    have now := usedBit_didSetBit s pos pos (!usedBit s.disk.blocks pos)
    rw [if_pos rfl, blocks, usedBit, setBitAt, Function.update_of_ne (bitmapBlock_odd odd)] at now
    change usedBit s.disk.blocks pos = _ at now
    simp at now
  · intro even
    have block := bitmapBlock_even even
    have below : bitmapBlock pos < (newfsDirectoryBlock s.totalblocks).toNat := by
      rw [block, directoryBlock_toNat]
      unfold NEWFS_BLOCK_BITS NEWFS_BLOCK_SIZE at even ⊢
      unfold NEWFS_ALLOCATION_BLOCK
      split <;> omega
    have above : NEWFS_ALLOCATION_BLOCK ≤ bitmapBlock pos := by
      rw [block]
      exact Nat.le_add_right _ _
    have used : usedBit s.disk.blocks pos = bitAt s.disk.blocks pos := by rw [usedBit, block, bitAt]
    constructor
    · rw [← used]
      exact ⟨_, _, blockbitmapGet_eq served inside, rfl, rfl, above, below⟩
    · intro value
      have after : (didSetBit s pos value).Served := ⟨served.answers, served.onDisk⟩
      refine ⟨_, _, blockbitmapSet_eq served inside value, ?_, rfl, above, below, fun q within => ?_⟩
      · rw [setBitAt, ← block]
        rfl
      · refine ⟨_, _, (didSetBit s pos value).didAsk (bitmapBlock q), blockbitmapGet_eq served within, ?_⟩
        rw [← usedBit_didSetBit s pos q value]
        exact blockbitmapGet_eq after within

/-! ## The search for a free position -/

/-- Once the loop is entered, it is left with a position in the superblock, and no other block has
changed. -/
theorem findnsetRounds_returned {maxBlock : Int} (enters : 0 < maxBlock) {rounds : Nat} {l r : Int}
    {s t : NewFs} (ran : findnsetRounds maxBlock rounds l s = .returned (r, t)) :
    (∃ p : Nat, r = p) ∧ ∀ b ≠ 0, t.disk.blocks b = s.disk.blocks b := by
  induction rounds generalizing l s with
  | zero => cases ran
  | succ rounds ih =>
      rw [findnsetRounds, if_pos enters] at ran
      obtain ⟨buffer, u, read, ran⟩ := Prog.bind_returned.1 ran
      have kept := (NewFs.readStack_returned read).1.blocks
      rw [Prog.bind_assert_apply] at ran
      split at ran
      · match found : bitmapFindnset buffer (min l NEWFS_BLOCK_BITS).toNat with
        | some (p, filled) =>
            simp only [found] at ran
            obtain ⟨done, v, written, ran⟩ := Prog.bind_returned.1 ran
            cases ran
            refine ⟨⟨p, rfl⟩, fun b other => ?_⟩
            rw [(NewFs.writeBlock_returned written).others other, kept]
        | none =>
            simp only [found] at ran
            obtain ⟨position, others⟩ := ih ran
            exact ⟨position, fun b other => by rw [others b other, kept]⟩
      · cases ran

/-- The loop is entered for every length but 0 and those that overflow. -/
theorem maxBlock_positive {l : Int} (nonneg : 0 ≤ l) (int : l < 0x80000000) :
    0 < (toInt32 (l + NEWFS_BLOCK_BITS - 1)).tdiv NEWFS_BLOCK_BITS ↔ 0 < l ∧ l ≤ 0x7ffff000 := by
  have bits : ((NEWFS_BLOCK_BITS : Nat) : Int) = 4096 := rfl
  rw [bits]
  by_cases fits : l ≤ 0x7ffff000
  · have whole : toInt32 (l + 4096 - 1) = l + 4096 - 1 := toInt32_eq (by omega) (by omega)
    rw [whole, Int.tdiv_eq_ediv_of_nonneg (by omega)]
    omega
  · have wrapped : toInt32 (l + 4096 - 1) = l + 4096 - 1 - 0x100000000 :=
      toInt32_wrap (by omega) (by omega)
    have negative : (l + 4096 - 1 - 0x100000000).tdiv 4096 ≤ 0 := by
      have := Int.tdiv_nonneg (a := -(l + 4096 - 1 - 0x100000000)) (b := 4096) (by omega) (by decide)
      rw [Int.neg_tdiv] at this
      omega
    rw [wrapped]
    omega

/-- A search that does not enter the loop. -/
theorem blockbitmapFindnset_leaves {l : Int} (nonneg : 0 ≤ l) (int : l < 0x80000000)
    (leaves : ¬(0 < l ∧ l ≤ 0x7ffff000)) (s : NewFs) : blockbitmapFindnset l s = .returned (-1, s) := by
  rw [blockbitmapFindnset, Prog.bind_assert_apply, if_pos (by simpa using nonneg), findnsetRounds,
    if_neg (fun positive => leaves ((maxBlock_positive nonneg int).1 positive))]
  rfl

/-- What is claimed of the search: it ends, with the first free position, now set and nothing else
changed, or with -1 and nothing changed if there is none. -/
def FirstFree (s : NewFs) (l : Int) : Prop :=
  ∃ r t, blockbitmapFindnset l s = .returned (r, t) ∧
    ((∃ p : Nat, (p : Int) < l ∧ usedBit s.disk.blocks p = false ∧
        (∀ q < p, usedBit s.disk.blocks q = true) ∧ r = p ∧
        t.disk.blocks = Function.update s.disk.blocks (bitmapBlock p)
          (bitmapSet (s.disk.blocks (bitmapBlock p)) (p % NEWFS_BLOCK_BITS) true)) ∨
      ((∀ p : Nat, (p : Int) < l → usedBit s.disk.blocks p = true) ∧ r = -1 ∧
        t.disk.blocks = s.disk.blocks))

/-- **When the search is right**: it is exactly when it does not enter its loop, and has nothing to
find. -/
theorem blockbitmapFindnset_exact (s : NewFs) (l : CInt) (nonneg : 0 ≤ l.val) :
    FirstFree s l.val ↔ l.val = 0 ∨
      (0x7ffff000 < l.val ∧ ∀ p : Nat, (p : Int) < l.val → usedBit s.disk.blocks p = true) := by
  have enters := maxBlock_positive nonneg l.property.2
  have starts : blockbitmapFindnset l.val s =
      findnsetRounds ((toInt32 (l.val + NEWFS_BLOCK_BITS - 1)).tdiv NEWFS_BLOCK_BITS)
        ((l.val / NEWFS_BLOCK_BITS).toNat + 2) l.val s := by
    rw [blockbitmapFindnset, Prog.bind_assert_apply, if_pos (by simpa using nonneg)]
  by_cases loop : 0 < l.val ∧ l.val ≤ 0x7ffff000
  · refine iff_of_false ?_ (by omega)
    rintro ⟨r, t, ran, right⟩
    rw [starts] at ran
    obtain ⟨⟨p, rfl⟩, others⟩ := findnsetRounds_returned (enters.2 loop) ran
    rcases right with ⟨q, within, free, -, same, blocks⟩ | ⟨-, minus, -⟩
    · obtain rfl : p = q := by omega
      have nonzero : bitmapBlock p ≠ 0 := Nat.succ_ne_zero _
      have set : usedBit t.disk.blocks p = true := by
        rw [usedBit, blocks, Function.update_self, bitmapGet_bitmapSet_self]
      rw [usedBit, others _ nonzero] at set
      change usedBit s.disk.blocks p = true at set
      rw [free] at set
      cases set
    · omega
  · have leaves := blockbitmapFindnset_leaves nonneg l.property.2 loop s
    constructor
    · rintro ⟨r, t, ran, right⟩
      rw [leaves] at ran
      cases ran
      rcases right with ⟨q, -, -, -, same, -⟩ | ⟨full, -, -⟩
      · omega
      · by_cases zero : l.val = 0
        · exact .inl zero
        · exact .inr ⟨by omega, full⟩
    · rintro (zero | ⟨-, full⟩)
      · exact ⟨-1, s, leaves, .inr ⟨fun p within => by omega, rfl, rfl⟩⟩
      · exact ⟨-1, s, leaves, .inr ⟨full, rfl, rfl⟩⟩

/-! ## A volume of a hundred blocks -/

/-- Its blocks are zero, and it is not in use. -/
def blankNewFs : NewFs where
  disk :=
    { blocks := fun _ _ => 0, totalBlocks := 100, answers := fun _ => true, asked := 0, served := [] }
  totalblocks := 100
  lock := 1
  memory := fun _ => 0
  stack := fun _ _ => 0
  indexed := []

theorem served_blankNewFs : blankNewFs.Served := ⟨fun _ => rfl, by decide⟩

theorem blockbitmap_stored_exact_zero : BitStored blankNewFs 0 :=
  (blockbitmap_stored_exact blankNewFs served_blankNewFs 0 (by decide)).2 (by decide)

/-- Position 1 is marked in block 2, the directory, and not in the allocation block. -/
theorem blockbitmap_set_directory :
    ∃ t, blockbitmapSet 1 100 true blankNewFs = .returned ((), t) ∧
      t.disk.served = [⟨2, .write⟩, ⟨2, .read⟩] ∧
      (newfsDirectoryBlock blankNewFs.totalblocks).toNat = 2 ∧
      bitmapGet (t.disk.blocks 2) 1 = true ∧ bitAt t.disk.blocks 1 = false :=
  ⟨didSetBit blankNewFs 1 true, @blockbitmapSet_eq blankNewFs 1 served_blankNewFs (by decide) true,
    rfl, by decide, by decide, by decide⟩

theorem blockbitmapFindnset_exact_zero : FirstFree blankNewFs 0 :=
  (blockbitmapFindnset_exact blankNewFs ⟨0, by decide⟩ (by decide)).2 (.inl rfl)

/-- The search takes position 0 in the superblock, and leaves the allocation block as it is. -/
theorem blockbitmapFindnset_superblock :
    ∃ t, blockbitmapFindnset 100 blankNewFs = .returned (0, t) ∧
      bitmapGet (t.disk.blocks 0) 0 = true ∧ usedBit t.disk.blocks 0 = false := by
  refine ⟨(blankNewFs.didAsk 0).didWrite 0 (bitmapSet (fun _ => 0) 0 true), ?_, by decide, by decide⟩
  rfl

end Buenos.Fs
