/-
# Fs.FlatAccounts -- the marked blocks of a FlatFS volume

The bitmap should mark the system's blocks and the blocks of the files, each of which has one
owner (`FlatExact`).  Making a file, writing to it and reading it keep the account exact
(`flat_exact_runs`).

A removal clears the marks of the inode and of the data blocks.  A file with more than seven
blocks has tables as well, and the single-indirect table, the second-level ones and the
double-indirect block stay marked with no owner (`FlatCleared.inexact`).
-/
import Buenos.Fs.FlatRuns

namespace Buenos.Fs

open Buenos.Lib Buenos.Theory

set_option autoImplicit false

/-! ## The account -/

/-- The blocks of a file whose inode has this size word. -/
def wordCount (ino : Block) : Nat := blocksOf (ino 0).toNat

/-- The inode's block of entry `j`, the data blocks, the single-indirect block with the
second-level ones, and the double-indirect block. -/
def flatOwned (blocks : Nat → Block) (j : Nat) : List Nat :=
  if Used (blocks 2) j then
    let ino := blocks (inodeOf blocks j)
    inodeOf blocks j :: (mapped blocks ino (flatDi blocks ino) (wordCount ino) ++
      (tabled ino (flatDi blocks ino) (wordCount ino) ++
        if 135 < wordCount ino then [(ino dblIndirWord).toNat] else []))
  else []

/-- The bitmap marks the blocks of the system and of the files, and no other block of the
volume; no block has two owners. -/
def FlatExact (n : Nat) (blocks : Nat → Block) : Prop :=
  Exact (· < 3) (fun b => b < n ∧ bitmapGet (blocks 1) b = true) (flatOwned blocks)

/-- The size words of files are not negative. -/
def Sized (blocks : Nat → Block) : Prop :=
  ∀ j, Used (blocks 2) j → (blocks (inodeOf blocks j) 0).toNat < 0x80000000

/-- The account in the driver's terms. -/
structure Balanced (n : Nat) (blocks : Nat → Block) : Prop where
  exact : Exact (· < 3) (fun b => b < n ∧ bitmapGet (blocks 1) b = true) (flatSlots blocks)
  sized : Sized blocks

theorem wordCount_eq {ino : Block} (small : (ino 0).toNat < 0x80000000) :
    wordCount ino = flatCount ino := by
  unfold wordCount flatCount fileSize
  rw [toInt32_eq (by omega) (by omega), Int.toNat_natCast]

theorem Sized.owned {blocks : Nat → Block} (sized : Sized blocks) :
    flatOwned blocks = flatSlots blocks := by
  funext j
  by_cases used : Used (blocks 2) j
  · rw [flatOwned, if_pos used, FlatImage.slots_used used]
    dsimp only
    rw [wordCount_eq (sized j used)]
    rfl
  · rw [flatOwned, if_neg used, FlatImage.slots_unused used]

theorem Balanced.flatExact {n : Nat} {blocks : Nat → Block} (balanced : Balanced n blocks) :
    FlatExact n blocks := by
  rw [FlatExact, balanced.sized.owned]
  exact balanced.exact

/-! ## One call -/

section Steps

variable {n : Nat} {blocks blocks' : Nat → Block} {j : Nat}

/-- A file of at most seven blocks has no tables. -/
theorem slots_short (used : Used (blocks 2) j)
    (short : flatCount (blocks (inodeOf blocks j)) ≤ 7) :
    flatSlots blocks j = inodeOf blocks j :: flatData blocks (blocks (inodeOf blocks j)) := by
  have tabs : flatTables blocks (blocks (inodeOf blocks j)) = [] := by
    unfold flatTables tabled
    rw [tables_of_le short]
    rfl
  have double : flatDouble (blocks (inodeOf blocks j)) = [] := if_neg (by omega)
  rw [FlatImage.slots_used used, flatParts, tabs, double]
  simp

theorem Sized.exchange (sized : Sized blocks) (others : FlatImage.Others blocks blocks' j)
    (size : Used (blocks' 2) j → (blocks' (inodeOf blocks' j) 0).toNat < 0x80000000) :
    Sized blocks' := by
  intro k used
  by_cases same : k = j
  · rw [same] at used ⊢
    exact size used
  · have used' := (others.used same).1 used
    rw [others.inode same used', others.content same used']
    exact sized k used'

/-- **An exchange of blocks** by one entry keeps the account. -/
theorem Balanced.exchange (balanced : Balanced n blocks)
    (others : FlatImage.Others blocks blocks' j) (nodup : (flatSlots blocks' j).Nodup)
    (fresh : ∀ b ∈ flatSlots blocks' j, Marked blocks b → b ∈ flatSlots blocks j)
    (marks : ∀ b < n, Marked blocks' b ↔
      (Marked blocks b ∧ b ∉ flatSlots blocks j) ∨ b ∈ flatSlots blocks' j)
    (inside : ∀ b ∈ flatSlots blocks' j, b < n) (small : n ≤ 4096)
    (size : Used (blocks' 2) j → (blocks' (inodeOf blocks' j) 0).toNat < 0x80000000) :
    Balanced n blocks' where
  exact := by
    have slots : flatSlots blocks' = Function.update (flatSlots blocks) j (flatSlots blocks' j) := by
      funext k
      by_cases same : k = j
      · rw [same, Function.update_self]
      · rw [Function.update_of_ne same, others.slots same]
    rw [slots]
    have bits : ∀ c : Nat → Block, ∀ b, b < n ∧ bitmapGet (c 1) b = true ↔ b < n ∧ Marked c b :=
      fun c b => and_congr_right fun less =>
        (and_iff_right (Nat.lt_of_lt_of_le less small)).symm
    refine balanced.exact.exchange j nodup (fun b mem old => fresh b mem ((bits blocks b).1 old).2) ?_
    intro b
    rw [bits blocks', bits blocks]
    constructor
    · rintro ⟨less, mark⟩
      rcases (marks b less).1 mark with ⟨old, other⟩ | new
      · exact .inl ⟨⟨less, old⟩, other⟩
      · exact .inr new
    · rintro (⟨⟨less, old⟩, other⟩ | new)
      · exact ⟨less, (marks b less).2 (.inl ⟨old, other⟩)⟩
      · exact ⟨inside b new, (marks b (inside b new)).2 (.inr new)⟩
  sized := balanced.sized.exchange others size

variable (image : FlatImage n blocks)

include image

/-- A change of free blocks keeps the account. -/
theorem Balanced.kept (balanced : Balanced n blocks)
    (same : ∀ b, Marked blocks b → blocks' b = blocks b) : Balanced n blocks' := by
  have bitmap := same 1 (image.held.reserved 1 (by decide))
  have directory := same 2 (image.held.reserved 2 (by decide))
  have content : ∀ k, Used (blocks 2) k → blocks' (inodeOf blocks k) = blocks (inodeOf blocks k) :=
    fun k used => same _ (image.held.owned k _ (FlatImage.inode_mem used))
  constructor
  · rw [bitmap, FlatImage.slots_frame directory fun k used => ⟨content k used, fun b mem => ?_⟩]
    · exact balanced.exact
    · have part : b ∈ flatParts blocks (blocks (inodeOf blocks k)) := List.mem_append_right _ mem
      exact same b (image.held.owned k b (FlatImage.part_mem used part))
  · intro k used
    rw [directory] at used
    have place : inodeOf blocks' k = inodeOf blocks k := by
      unfold inodeOf
      rw [directory]
    rw [place, content k used]
    exact balanced.sized k used

theorem Balanced.created (small : n ≤ 4096) (balanced : Balanced n blocks) {filename : Name}
    {size : CInt} {p : Nat} (positive : 0 ≤ size.val)
    (created : FlatCreated n blocks blocks' filename size j p) : Balanced n blocks' := by
  obtain ⟨slots, others⟩ := created.slots small image
  have nothing : flatSlots blocks j = [] :=
    FlatImage.slots_unused fun used => used.2 created.free
  refine balanced.exchange others ?_ ?_ ?_ ?_ small fun _ => ?_
  · rw [slots]
    exact created.nodup
  · rw [slots]
    exact fun b mem marked => absurd marked (created.fresh b mem).2
  · intro b _
    rw [slots, nothing, created.marks b]
    simp
  · rw [slots]
    exact fun b mem => (created.fresh b mem).1
  · rw [(created.entry small image).2]
    have value := created.size
    by_contra large
    rw [fileSize, toInt32_wrap (by omega) (by have := (blocks' p 0).isLt; omega)] at value
    have limit := (blocks' p 0).isLt
    omega

theorem Balanced.removed (small : n ≤ 4096) (balanced : Balanced n blocks)
    (short : flatCount (blocks (inodeOf blocks j)) ≤ 7)
    (cleared : FlatCleared blocks blocks' j) : Balanced n blocks' := by
  obtain ⟨nothing, others⟩ := cleared.slots image
  have unused : ¬ Used (blocks' 2) j := fun used => used.2 cleared.directory.inode
  refine balanced.exchange others ?_ ?_ ?_ ?_ small fun used => absurd used unused
  · rw [nothing]
    exact List.nodup_nil
  · rw [nothing]
    exact fun b mem => absurd mem List.not_mem_nil
  · intro b _
    rw [nothing, slots_short cleared.used short, cleared.marks b]
    simp
  · rw [nothing]
    exact fun b mem => absurd mem List.not_mem_nil

/-- **A file with tables** cannot be removed without a loss: its first table stays marked. -/
theorem FlatCleared.inexact (sized : Sized blocks) (cleared : FlatCleared blocks blocks' j)
    (long : 7 < flatCount (blocks (inodeOf blocks j))) : ¬ FlatExact n blocks' := by
  obtain ⟨nothing, others⟩ := cleared.slots image
  have unused : ¬ Used (blocks' 2) j := fun used => used.2 cleared.directory.inode
  have first : 0 < tables (flatCount (blocks (inodeOf blocks j))) := by
    unfold tables
    omega
  obtain ⟨b, table⟩ : ∃ b, b ∈ flatTables blocks (blocks (inodeOf blocks j)) :=
    ⟨_, mem_tabled.2 ⟨0, first, rfl⟩⟩
  have part := table_mem_parts table
  have mem := FlatImage.part_mem cleared.used part
  obtain ⟨above, inside, -⟩ := image.owned mem
  obtain ⟨notInode, nodup⟩ := List.nodup_cons.1 (image.parts_nodup cleared.used)
  have stays := (cleared.marks _).2 ⟨image.held.owned j _ mem, by
    rintro (same | data)
    · exact notInode (same ▸ part)
    · exact (List.nodup_append.1 nodup).2.2 _ data _ (List.mem_append_left _ table) rfl⟩
  intro exact
  rcases (exact.marked _).1 ⟨inside, stays.2⟩ with system | ⟨k, owned⟩
  · omega
  · rw [(sized.exchange others fun used => absurd used unused).owned] at owned
    by_cases same : k = j
    · rw [same, nothing] at owned
      cases owned
    · rw [others.slots same] at owned
      exact image.held.apart k j same owned mem

theorem Balanced.written (small : n ≤ 4096) (balanced : Balanced n blocks)
    (written : FlatWritten n blocks blocks' j)
    (size : (blocks' (inodeOf blocks j) 0).toNat < 0x80000000) : Balanced n blocks' := by
  refine balanced.exchange (written.others image) written.nodup
    (fun b mem => (written.fresh b mem).2) ?_ (fun b mem => (written.fresh b mem).1) small
    fun _ => ?_
  · intro b _
    rw [written.marks b]
    constructor
    · rintro (old | new)
      · by_cases mine : b ∈ flatSlots blocks j
        · exact .inr (written.grown b mine)
        · exact .inl ⟨old, mine⟩
      · exact .inr new
    · rintro (⟨old, -⟩ | new)
      · exact .inl old
      · exact .inr new
  · unfold inodeOf
    rw [written.directory]
    exact size

end Steps

/-! ## Runs -/

/-- A volume as it was formatted: three blocks are marked, and the entries are zero. -/
structure FlatEmpty (s : Flat) : Prop where
  ready : s.Ready
  free : 0 < s.lock
  room : 3 ≤ s.totalblocks
  bitmap : ∀ b < s.totalblocks, bitmapGet (s.blocks 1) b = true ↔ b < 3
  directory : ∀ j < 25, entryInode (s.blocks 2) j = 0 ∧ entryName (s.blocks 2) j = []

/-- The calls that keep the account: a new file has a size, a file that is removed has no
tables, and a write finds all the blocks it needs or not even the first. -/
def TfsOp.Accountable (s : Flat) : TfsOp → Prop
  | .create _ size => 0 ≤ size.val
  | .remove filename => filename ≠ [] ∧ ∀ j ∈ findEntry (s.blocks 2) filename,
      flatCount (s.blocks (inodeOf s.blocks j)) ≤ 7
  | op => op.FlatPermitted s

theorem TfsOp.Accountable.allowed {s : Flat} {op : TfsOp} (accountable : op.Accountable s) :
    op.Removable (s.blocks 2) ∧ op.FlatPermitted s := by
  cases op with
  | create filename size => exact ⟨trivial, trivial⟩
  | openFile filename => exact ⟨trivial, trivial⟩
  | remove filename => exact ⟨.inl accountable.1, trivial⟩
  | read fileid n off => exact ⟨trivial, trivial⟩
  | write fileid buffer n off => exact ⟨trivial, accountable⟩

theorem FlatEmpty.balanced {s : Flat} (blank : FlatEmpty s) :
    FlatMounted s ∧ Balanced s.totalblocks s.blocks := by
  have unused : ∀ j, ¬ Used (s.blocks 2) j := fun j used => used.2 (blank.directory j used.1).1
  have nothing : ∀ j, flatSlots s.blocks j = [] := fun j => FlatImage.slots_unused (unused j)
  refine ⟨⟨blank.ready, blank.free, blank.room, .empty ?_ blank.directory⟩, ?_,
    fun j used => absurd used (unused j)⟩
  · exact fun b small => (blank.bitmap b (Nat.lt_of_lt_of_le small blank.room)).2 small
  · refine
      { nodup := fun j => by rw [nothing]; exact List.nodup_nil
        apart := fun j k _ => by rw [nothing]; exact List.disjoint_nil_left _
        outside := fun j b mem => by rw [nothing] at mem; cases mem
        marked := fun b => ?_ }
    constructor
    · rintro ⟨less, mark⟩
      exact .inl ((blank.bitmap b less).1 mark)
    · rintro (small | ⟨j, mem⟩)
      · have less := Nat.lt_of_lt_of_le small blank.room
        exact ⟨less, (blank.bitmap b less).2 small⟩
      · rw [nothing] at mem
        cases mem

theorem FlatChange.balanced {s : Flat} {op : TfsOp} {blocks' : Nat → Block}
    (mounted : FlatMounted s) (accountable : op.Accountable s)
    (balanced : Balanced s.totalblocks s.blocks)
    (change : FlatChange s.totalblocks s.blocks blocks' op) : Balanced s.totalblocks blocks' := by
  have image := mounted.image
  have small := mounted.ready.small
  cases change with
  | kept same => exact balanced.kept image same
  | created created => exact balanced.created image small accountable created
  | removed found cleared =>
      exact balanced.removed image small (accountable.2 _ found) cleared
  | written written size => exact balanced.written image small written size

/-- **The account is exact** in every state of a run of such calls. -/
theorem flat_exact_runs {s : Flat}
    (run : (flatSystem FlatEmpty).ReachableWhen (fun s op => op.Accountable s) s) :
    FlatExact s.totalblocks s.blocks := by
  have kept := flat_runs (I := Balanced) (fun _ _ legal => legal.allowed)
    (fun _ blank => blank.balanced)
    (fun mounted legal balanced change => change.balanced mounted legal balanced) run
  exact kept.2.flatExact

/-! ## Files made and removed -/

theorem flatEmpty_twoHundredBlocks : FlatEmpty twoHundredBlocks where
  ready := flatMounted_twoHundredBlocks.ready
  free := by decide
  room := by decide
  bitmap := fun _ _ => systemBitmap_get
  directory := by decide +kernel

/-- A file is made and removed again. -/
def madeAndRemoved (size : CInt) : List TfsOp := [.create newName size, .remove newName]

theorem flat_exact_runs_oneByte :
    ∃ s, (flatSystem FlatEmpty).exec twoHundredBlocks (madeAndRemoved oneByte) = some s ∧
      FlatExact s.totalblocks s.blocks := by
  have ran : (match (flatSystem FlatEmpty).step twoHundredBlocks (.create newName oneByte) with
      | some t => decide (∀ j ∈ findEntry (t.blocks 2) newName,
          flatCount (t.blocks (inodeOf t.blocks j)) ≤ 7) &&
            ((flatSystem FlatEmpty).step t (.remove newName)).isSome
      | none => false) = true := by decide +kernel
  cases made : (flatSystem FlatEmpty).step twoHundredBlocks (.create newName oneByte) with
  | none =>
      rw [made] at ran
      cases ran
  | some t =>
      rw [made] at ran
      obtain ⟨short, removed⟩ := (Bool.and_eq_true _ _).mp ran
      obtain ⟨s, removed⟩ := Option.isSome_iff_exists.1 removed
      have start : (flatSystem FlatEmpty).ReachableWhen (fun s op => op.Accountable s)
          twoHundredBlocks := .start flatEmpty_twoHundredBlocks
      have sized : (TfsOp.create newName oneByte).Accountable twoHundredBlocks :=
        (by decide : (0 : Int) ≤ oneByte.val)
      have legal : (TfsOp.remove newName).Accountable t :=
        ⟨by decide, of_decide_eq_true short⟩
      refine ⟨s, ?_, flat_exact_runs ((start.step sized made).step legal removed)⟩
      simp [madeAndRemoved, System.exec, made, removed]

/-- One block more than the direct pointers reach. -/
def firstIndirect : CInt := ⟨3585, by decide⟩

/-- **A file of eight blocks leaks its table**: after its removal a block is marked that no
one owns. -/
theorem flatExact_leak :
    FlatEmpty twoHundredBlocks ∧
    ∃ s, (flatSystem FlatEmpty).exec twoHundredBlocks (madeAndRemoved firstIndirect) = some s ∧
      ¬ FlatExact s.totalblocks s.blocks := by
  refine ⟨flatEmpty_twoHundredBlocks, ?_⟩
  obtain ⟨mounted, balanced⟩ := flatEmpty_twoHundredBlocks.balanced
  have can : Creatable twoHundredBlocks.totalblocks twoHundredBlocks.blocks newName firstIndirect :=
    ⟨by decide, by decide +kernel, findSlot_of_unused (j := 0) (by decide) rfl, by decide +kernel⟩
  rcases flatfsCreate_cases mounted newName firstIndirect with
    ⟨t, -, -, -, cannot⟩ | ⟨t, i, p, made, same, created, -⟩
  · exact absurd can cannot
  have full := balanced.created mounted.image mounted.ready.small (by decide) created
  obtain ⟨_, t', made', -, mounted', j, found, used, count⟩ :=
    flatfsCreate_found mounted (by decide) can
  cases made.symm.trans made'
  obtain ⟨s, removed, same, cleared, -⟩ := (flatfsRemove_cases mounted' found used).1 (by
    rw [count]
    decide)
  refine ⟨s, ?_, ?_⟩
  · simp only [madeAndRemoved, System.exec, flatSystem, TfsOp.flatRun,
      Prog.bind_of_returned made, Prog.bind_of_returned removed, Prog.pure_apply,
      Option.bind_some]
  · rw [same.totalblocks]
    exact cleared.inexact mounted'.image full.sized (by rw [count]; decide)

end Buenos.Fs
