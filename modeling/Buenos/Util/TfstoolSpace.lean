/-
# Util.TfstoolSpace -- the blocks that storing a file takes

`tfstool_write` takes blocks until it has read less than a block of the source, so a source
whose last block is full costs one more (`fullEnd`), up to the 127 that an inode lists.
`bitmap_findnset` looks at the bits up to the first clear one and knows nothing of the size
of the array: `writeTries` are the arrays it is called with, and `Looks` says which bits it
looks at there.

`usesBlocks_iff` is the condition under which the tool takes the blocks that the file needs
and looks at no bit outside of the bitmap block.  The number of blocks goes through a 32-bit
`int` on its way (`searched`).
-/
import Buenos.Util.TfstoolFiles

namespace Buenos.Util

open Buenos.Lib Buenos.Theory Buenos.Fs

set_option autoImplicit false

/-! ## One search -/

/-- The number of bits that `bitmap_findnset` searches when it is given `num_blocks`. -/
def searched (numBlocks : Nat) : Nat := (toInt32 numBlocks).toNat

theorem searched_le {n : Nat} (word : n < 0x100000000) : searched n ≤ n := by
  unfold searched
  by_cases positive : n < 0x80000000
  · rw [toInt32_eq (by omega) (by omega), Int.toNat_natCast]
  · rw [toInt32_wrap (by omega) (by omega)]
    omega

/-- `bitmap_findnset` looks at bit `i`: there was no clear bit before. -/
def Looks (order : ByteOrder) (numBlocks : Nat) (bat : Bytes) (i : Nat) : Prop :=
  i < searched numBlocks ∧ ∀ k < i, bitmapGet order bat k = true

/-- All bits looked at are in the bitmap block. -/
def Inside (order : ByteOrder) (numBlocks : Nat) (bat : Bytes) : Prop :=
  ∀ i, Looks order numBlocks bat i → i < 4096

/-- The bits that a search may find. -/
def reach (numBlocks : Nat) : Nat := min (searched numBlocks) 4096

theorem reach_le (numBlocks : Nat) : reach numBlocks ≤ 4096 := Nat.min_le_right _ _

section Search

variable {order : ByteOrder} {n : Nat} {bat : Bytes}

theorem bitmapFindnset_some {l : Int} {p : Nat}
    (first : (List.range l.toNat).find? (fun i => !bitmapGet order bat i) = some p) :
    bitmapFindnset order bat l = ((p : Int), bitmapSet order bat p true) := by
  unfold bitmapFindnset
  rw [first]

theorem bitmapFindnset_none {l : Int}
    (nothing : (List.range l.toNat).find? (fun i => !bitmapGet order bat i) = none) :
    bitmapFindnset order bat l = (-1, bat) := by
  unfold bitmapFindnset
  rw [nothing]

theorem bitmapGet_set {i : Nat} (inside : i < 4096)
    (set : Lib.bitmapGet (content bat) i = true) : bitmapGet order bat i = true := by
  rw [bitmapGet_content order bat inside]
  exact set

/-- A search that takes bit `p`. -/
structure Found (order : ByteOrder) (n : Nat) (bat : Bytes) (p : Nat) (bat' : Bytes) : Prop where
  took : takeBlock order n bat = (some p, bat')
  usable : 2 < p ∧ p < reach n
  clear : Lib.bitmapGet (content bat) p = false
  set : content bat' = Lib.bitmapSet (content bat) p true
  inside : Inside order n bat

namespace Found

variable {p : Nat} {bat' : Bytes} (found : Found order n bat p bat')

include found

theorem small : p ≤ 4096 := Nat.le_of_lt (Nat.lt_of_lt_of_le found.usable.2 (reach_le n))

theorem fewer : Lib.free (content bat) (reach n) = Lib.free (content bat') (reach n) + 1 := by
  rw [found.set]
  exact free_bitmapSet found.usable.2 found.clear

theorem system (system : ∀ b < 3, Lib.bitmapGet (content bat) b = true) :
    ∀ b < 3, Lib.bitmapGet (content bat') b = true := by
  have above := found.usable.1
  intro b low
  rw [found.set, bitmapGet_bitmapSet, if_neg (by omega)]
  exact system b low

end Found

/-- **A bit is free** within reach: the first one is taken. -/
theorem takeBlock_found (order : ByteOrder) (word : n < 0x100000000)
    (system : ∀ b < 3, Lib.bitmapGet (content bat) b = true)
    (free : 0 < Lib.free (content bat) (reach n)) :
    ∃ p bat', Found order n bat p bat' := by
  obtain ⟨q, mem⟩ := Finset.card_pos.1 free
  obtain ⟨within, isClear⟩ := mem_clearBits.1 mem
  unfold reach at within
  have qClear : bitmapGet order bat q = false := by
    rw [bitmapGet_content order bat (by omega), isClear]
  have least := searched_le word
  cases first : (List.range (searched n)).find? fun i => !bitmapGet order bat i with
  | none =>
      have all := List.find?_eq_none.1 first q (List.mem_range.2 (by omega))
      simp [qClear] at all
  | some p =>
      obtain ⟨clear, inRange, before⟩ := List.find?_range_eq_some.1 first
      rw [List.mem_range] at inRange
      have clear : bitmapGet order bat p = false := by simpa using clear
      have early : p ≤ q := by
        by_contra later
        have set := before q (by omega)
        simp [qClear] at set
      have clear' : Lib.bitmapGet (content bat) p = false := by
        rw [← bitmapGet_content order bat (by omega), clear]
      have above : 2 < p := by
        by_contra low
        rw [system p (by omega)] at clear'
        cases clear'
      have number : toUint32 (p : Int) = p := by
        unfold toUint32
        omega
      refine ⟨p, bitmapSet order bat p true, ?_, ⟨above, by unfold reach; omega⟩, clear',
        content_bitmapSet order bat (by omega) true, fun i looks => ?_⟩
      · simp only [takeBlock, bitmapFindnset_some first, number]
        rw [if_pos ⟨above, by omega⟩]
      · by_contra far
        have set := looks.2 p (by omega)
        rw [clear] at set
        cases set

/-- **No bit is free** within reach. -/
theorem takeBlock_full (order : ByteOrder) (word : n < 0x100000000)
    (none_ : Lib.free (content bat) (reach n) = 0) :
    (searched n ≤ 4096 → (∃ bat', takeBlock order n bat = (none, bat')) ∧ Inside order n bat) ∧
      (4096 < searched n → Looks order n bat 4096) := by
  have full : ∀ b < reach n, bitmapGet order bat b = true := by
    intro b within
    unfold reach at within
    refine bitmapGet_set (by omega) ?_
    cases bit : Lib.bitmapGet (content bat) b with
    | true => rfl
    | false =>
        have mem : b ∈ clearBits (content bat) (reach n) := mem_clearBits.2 ⟨within, bit⟩
        rw [Finset.card_eq_zero.1 none_] at mem
        cases mem
  constructor
  · intro few
    have same : reach n = searched n := Nat.min_eq_left few
    refine ⟨⟨bat, ?_⟩, fun i looks => Nat.lt_of_lt_of_le looks.1 few⟩
    have nothing : (List.range (searched n)).find? (fun i => !bitmapGet order bat i) = none := by
      rw [List.find?_eq_none]
      intro b mem
      rw [full b (by rw [same]; exact List.mem_range.1 mem)]
      decide
    have number : toUint32 (-1) = 0xffffffff := by decide
    simp only [takeBlock, bitmapFindnset_none nothing, number]
    rw [if_neg (by omega)]
  · intro many
    exact ⟨many, fun k less => full k (by unfold reach; omega)⟩

end Search

/-! ## The arrays searched -/

/-- The arrays that the loop of `tfstool_write` searches, in order. -/
def loopTries (order : ByteOrder) (take : Bytes → Option Nat × Bytes) :
    Nat → Nat → WriteState → List Bytes
  | 0, _, _ => []
  | n + 1, i, w =>
      if w.filesize < TFS_MAX_FILESIZE then
        w.bat :: match take w.bat with
          | (some bnum, bat) =>
              if w.source.length < TFS_BLOCK_SIZE then []
              else loopTries order take n (i + 1) (w.next order i bnum bat)
          | (none, _) => []
      else []

/-- Those that `tfstool_write` searches, the one of the bitmap block first. -/
def writeTries (order : ByteOrder) (take : Bytes → Option Nat × Bytes) (numBlocks : Nat)
    (data bat : Bytes) (source : List Byte) : List Bytes :=
  bat :: match take bat with
    | (some _, bat) => loopTries order take numBlocks 0
        { filesize := 0, source := source, data := data, bat := bat, inode := fun _ => 0 }
    | (none, _) => []

section Tries

variable {order : ByteOrder} {take take' : Bytes → Option Nat × Bytes}

/-- The loop calls `take` on these arrays only. -/
theorem writeLoop_congr (n : Nat) :
    ∀ (i : Nat) (w : WriteState), (∀ bat ∈ loopTries order take n i w, take' bat = take bat) →
      writeLoop order take' n i w = writeLoop order take n i w := by
  induction n with
  | zero => exact fun _ _ _ => rfl
  | succ n ih =>
      intro i w same
      rw [loopTries] at same
      rw [writeLoop, writeLoop]
      by_cases more : w.filesize < TFS_MAX_FILESIZE
      · rw [if_pos more] at same
        rw [if_pos more, if_pos more, same w.bat List.mem_cons_self]
        generalize took : take w.bat = pair at same ⊢
        obtain ⟨block, bat⟩ := pair
        cases block with
        | none => rfl
        | some b =>
            refine Prog.bind_congr fun written => ?_
            by_cases last : w.source.length < TFS_BLOCK_SIZE
            · rw [if_pos last, if_pos last]
            · rw [if_neg last, if_neg last, ih (i + 1) (w.next order i b bat) fun bat' mem => ?_]
              apply same bat' (List.mem_cons_of_mem _ ?_)
              dsimp only
              rw [if_neg last]
              exact mem
      · rw [if_neg more, if_neg more]

/-- **The arrays are all there are**: on no other does the result depend. -/
theorem writeFile_congr {n : Nat} {data masterDir bat : Bytes} {index : Nat} {source : List Byte}
    {target : Name}
    (same : ∀ bits ∈ writeTries order take n data bat source, take' bits = take bits) :
    writeFile order take' n data masterDir bat index source target =
      writeFile order take n data masterDir bat index source target := by
  unfold writeTries at same
  rw [writeFile, writeFile, same bat List.mem_cons_self]
  generalize took : take bat = pair at same ⊢
  obtain ⟨block, bits⟩ := pair
  cases block with
  | none => rfl
  | some p =>
      dsimp only
      rw [writeLoop_congr n 0 _ fun bat' mem => same bat' (List.mem_cons_of_mem _ mem)]

end Tries

/-! ## How many blocks are taken -/

/-- The blocks that a source of `size` bytes takes, with `i` blocks of the file done: one more
than its whole blocks, as long as the inode has entries. -/
def takes (i size : Nat) : Nat := min (size / 512 + 1) (127 - i)

/-- The last block of the source is full, or there is none, and the inode has an entry left. -/
def FullEnd (size : Nat) : Prop := size % 512 = 0 ∧ size < 65024

theorem takes_eq {size : Nat} (most : size ≤ 65024) :
    takes 0 size = if size % 512 = 0 ∧ size < 65024 then blocksOf size + 1 else blocksOf size := by
  unfold takes blocksOf
  split <;> omega

section Loop

variable {order : ByteOrder} {n : Nat} (word : n < 0x100000000)

include word

/-- **Enough blocks are free**: the loop takes as many as it wants. -/
theorem writeLoop_enough (rounds : Nat) :
    ∀ (i : Nat) (w : WriteState) (disk : HostFile), reach n ≤ tfstoolNumblocks disk →
      (∀ b < 3, Lib.bitmapGet (content w.bat) b = true) →
      Lib.free (content w.bat) (reach n) < rounds → w.filesize = 512 * i →
      w.filesize + w.source.length ≤ 65024 →
      takes i w.source.length ≤ Lib.free (content w.bat) (reach n) →
      (∃ w' disk' new, writeLoop order (takeBlock order n) rounds i w disk =
          .returned (some (true, w'), disk') ∧ new.length = takes i w.source.length ∧
        Copied (reach n) disk disk' w w' i new) ∧
      ∀ bat ∈ loopTries order (takeBlock order n) rounds i w, Inside order n bat := by
  induction rounds with
  | zero => exact fun _ _ _ _ _ less => absurd less (Nat.not_lt_zero _)
  | succ rounds ih =>
      intro i w disk total system less whole short enough
      rw [writeLoop, loopTries]
      by_cases more : w.filesize < TFS_MAX_FILESIZE
      · have room : i < 127 := by
          change w.filesize < 512 * (512 / 4 - 1) at more
          omega
        have wanted : takes i w.source.length = takes (i + 1) (w.source.length - 512) + 1 ∨
            w.source.length < 512 ∧ takes i w.source.length = 1 := by
          unfold takes
          omega
        obtain ⟨b, bat, found⟩ := takeBlock_found order word system
          (show 0 < Lib.free (content w.bat) (reach n) by omega)
        obtain ⟨disk₁, ran₁, size, written⟩ :=
          writeBlock_image disk b (w.next order i b bat).data found.small
        have usable := found.usable
        have kept : disk₁.size = disk.size := by
          change reach n ≤ disk.size / 512 at total
          omega
        have first : Copied (reach n) disk disk₁ w (w.next order i b bat) i [b] :=
          .one room short usable found.clear found.set kept written
        rw [if_pos more, if_pos more, found.took]
        dsimp only
        rw [Prog.bind_of_returned ran₁, if_pos rfl]
        by_cases last : w.source.length < TFS_BLOCK_SIZE
        · rw [if_pos last, if_pos last]
          change w.source.length < 512 at last
          refine ⟨⟨_, _, [b], rfl, ?_, first⟩, ?_⟩
          · rw [List.length_singleton]
            unfold takes
            omega
          · intro bat' mem
            rw [List.mem_singleton.1 mem]
            exact found.inside
        · rw [if_neg last, if_neg last]
          change ¬ w.source.length < 512 at last
          have counted := first.count
          have left : (w.next order i b bat).source = w.source.drop 512 := rfl
          have length : (w.next order i b bat).source.length = w.source.length - 512 := by
            rw [left, List.length_drop]
          simp only [List.length_singleton] at counted
          have fewer : Lib.free (content w.bat) (reach n) =
              Lib.free (content (w.next order i b bat).bat) (reach n) + 1 := found.fewer
          have system' : ∀ c < 3, Lib.bitmapGet (content (w.next order i b bat).bat) c = true :=
            found.system system
          have total' : reach n ≤ tfstoolNumblocks disk₁ := by
            rw [tfstoolNumblocks, kept]
            exact total
          obtain ⟨⟨w', disk', new, ran, count, rest⟩, tries⟩ :=
            ih (i + 1) (w.next order i b bat) disk₁ total' system' (by omega) (by omega)
              (by omega) (by rw [length]; omega)
          refine ⟨⟨w', disk', b :: new, ran, ?_, first.cons rest (by omega) left⟩, ?_⟩
          · rw [List.length_cons, count, length]
            omega
          · intro bat' mem
            rcases List.mem_cons.1 mem with rfl | later
            · exact found.inside
            · exact tries bat' later
      · rw [if_neg more, if_neg more]
        have done : takes i w.source.length = 0 := by
          change ¬ w.filesize < 512 * (512 / 4 - 1) at more
          unfold takes
          omega
        exact ⟨⟨w, disk, [], rfl, done.symm, .nothing _ _ _ _⟩,
          fun _ mem => absurd mem List.not_mem_nil⟩

/-- **Too few blocks are free**: the loop gives up, and if it was told of more bits than the
bitmap has it looks at the one behind. -/
theorem writeLoop_short (rounds : Nat) :
    ∀ (i : Nat) (w : WriteState) (disk : HostFile), reach n ≤ tfstoolNumblocks disk →
      (∀ b < 3, Lib.bitmapGet (content w.bat) b = true) →
      Lib.free (content w.bat) (reach n) < rounds → w.filesize = 512 * i →
      w.filesize + w.source.length ≤ 65024 →
      Lib.free (content w.bat) (reach n) < takes i w.source.length →
      (searched n ≤ 4096 →
        (∃ w' disk', writeLoop order (takeBlock order n) rounds i w disk =
          .returned (some (false, w'), disk')) ∧
        ∀ bat ∈ loopTries order (takeBlock order n) rounds i w, Inside order n bat) ∧
      (4096 < searched n →
        ∃ bat ∈ loopTries order (takeBlock order n) rounds i w, Looks order n bat 4096) := by
  induction rounds with
  | zero => exact fun _ _ _ _ _ less => absurd less (Nat.not_lt_zero _)
  | succ rounds ih =>
      intro i w disk total system less whole short few
      have more : w.filesize < TFS_MAX_FILESIZE := by
        change w.filesize < 512 * (512 / 4 - 1)
        unfold takes at few
        omega
      rw [writeLoop, loopTries, if_pos more, if_pos more]
      by_cases some_ : 0 < Lib.free (content w.bat) (reach n)
      · obtain ⟨b, bat, found⟩ := takeBlock_found order word system some_
        obtain ⟨disk₁, ran₁, size, written⟩ :=
          writeBlock_image disk b (w.next order i b bat).data found.small
        have notLast : ¬ w.source.length < TFS_BLOCK_SIZE := by
          change ¬ w.source.length < 512
          unfold takes at few
          omega
        have full : 512 ≤ w.source.length := Nat.not_lt.1 notLast
        have fewer : Lib.free (content w.bat) (reach n) =
            Lib.free (content (w.next order i b bat).bat) (reach n) + 1 := found.fewer
        have system' : ∀ c < 3, Lib.bitmapGet (content (w.next order i b bat).bat) c = true :=
          found.system system
        have total' : reach n ≤ tfstoolNumblocks disk₁ := by
          change reach n ≤ disk₁.size / 512
          change reach n ≤ disk.size / 512 at total
          omega
        have length : (w.next order i b bat).source.length = w.source.length - 512 :=
          List.length_drop
        have counted : (w.next order i b bat).filesize = 512 * (i + 1) := by
          change toUint32 ((w.filesize + min 512 w.source.length : Nat) : Int) = _
          unfold toUint32
          omega
        have rest := ih (i + 1) (w.next order i b bat) disk₁ total' system' (by omega) counted
          (by rw [length]; omega) (by rw [length]; unfold takes at few ⊢; omega)
        rw [found.took]
        dsimp only
        rw [Prog.bind_of_returned ran₁, if_pos rfl, if_neg notLast, if_neg notLast]
        refine ⟨fun fits => ⟨(rest.1 fits).1, fun bat' mem => ?_⟩, fun beyond => ?_⟩
        · rcases List.mem_cons.1 mem with rfl | later
          · exact found.inside
          · exact (rest.1 fits).2 bat' later
        · obtain ⟨bat', mem, looks⟩ := rest.2 beyond
          exact ⟨bat', List.mem_cons_of_mem _ mem, looks⟩
      · obtain ⟨fits, beyond⟩ := takeBlock_full order word (Nat.eq_zero_of_not_pos some_)
        refine ⟨fun inside => ?_, fun many => ⟨w.bat, List.mem_cons_self, beyond many⟩⟩
        obtain ⟨⟨bat, took⟩, looks⟩ := fits inside
        rw [took]
        refine ⟨⟨_, _, rfl⟩, fun bat' mem => ?_⟩
        rw [List.mem_singleton.1 mem]
        exact looks

end Loop

/-! ## The whole command -/

/-- The bits `new` were clear and are set, and no others are. -/
structure Sets (bits bits' : Lib.Bitmap) (limit : Nat) (new : List Nat) : Prop where
  nodup : new.Nodup
  fresh : ∀ b ∈ new, b < limit ∧ Lib.bitmapGet bits b = false
  marks : ∀ b, Lib.bitmapGet bits' b = true ↔ Lib.bitmapGet bits b = true ∨ b ∈ new

theorem Sets.weaken {bits bits' : Lib.Bitmap} {limit limit' : Nat} {new : List Nat}
    (sets : Sets bits bits' limit new) (le : limit ≤ limit') : Sets bits bits' limit' new where
  nodup := sets.nodup
  fresh := fun b mem => ⟨Nat.lt_of_lt_of_le (sets.fresh b mem).1 le, (sets.fresh b mem).2⟩
  marks := sets.marks

/-- The bits that are set are determined. -/
theorem Sets.length_eq {bits bits' : Lib.Bitmap} {limit limit' : Nat} {new new' : List Nat}
    (sets : Sets bits bits' limit new) (sets' : Sets bits bits' limit' new') :
    new.length = new'.length := by
  have same : ∀ b, b ∈ new ↔ b ∈ new' := by
    intro b
    constructor
    · intro mem
      have clear := (sets.fresh b mem).2
      refine ((sets'.marks b).1 ((sets.marks b).2 (.inr mem))).resolve_left fun set => ?_
      rw [clear] at set
      cases set
    · intro mem
      have clear := (sets'.fresh b mem).2
      refine ((sets.marks b).1 ((sets'.marks b).2 (.inr mem))).resolve_left fun set => ?_
      rw [clear] at set
      cases set
  exact ((List.perm_ext_iff_of_nodup sets.nodup sets'.nodup).2 same).length_eq

section Command

variable (order : ByteOrder) {n : Nat} (word : n < 0x100000000) {disk : HostFile}
  (total : reach n ≤ tfstoolNumblocks disk) {bat : Bytes}
  (system : ∀ b < 3, Lib.bitmapGet (content bat) b = true) {source : List Byte}
  (most : source.length ≤ 65024) (data masterDir : Bytes) (index : Nat) (target : Name)

include word total system most

theorem writeFile_enough (room : 3 ≤ tfstoolNumblocks disk)
    (enough : 1 + takes 0 source.length ≤ Lib.free (content bat) (reach n)) :
    (∃ disk' new, writeFile order (takeBlock order n) n data masterDir bat index source target disk =
        .returned (true, disk') ∧ new.length = 1 + takes 0 source.length ∧
      Sets (content bat) (imageOf disk' 1) (reach n) new) ∧
    ∀ bits ∈ writeTries order (takeBlock order n) n data bat source, Inside order n bits := by
  obtain ⟨p, bits, found⟩ := takeBlock_found order word system
    (show 0 < Lib.free (content bat) (reach n) by omega)
  have fewer := found.fewer
  have set := found.set
  have least := free_le (content bat) (reach n)
  have bound : reach n ≤ n := Nat.le_trans (Nat.min_le_left _ _) (searched_le word)
  have less : Lib.free (content bits) (reach n) < n := by omega
  have left : takes 0 source.length ≤ Lib.free (content bits) (reach n) := by omega
  obtain ⟨⟨w', disk₁, new, ran, count, copied⟩, tries⟩ := @writeLoop_enough order n word n 0
    ⟨0, source, data, bits, fun _ => 0⟩ disk total (found.system system) less rfl
    (by rw [Nat.zero_add]; exact most) left
  have all : w'.filesize = source.length := by
    have counted := copied.count
    dsimp only at count counted
    unfold takes at count
    omega
  have size : tfstoolNumblocks disk₁ = tfstoolNumblocks disk := by
    rw [tfstoolNumblocks, copied.size]
    rfl
  obtain ⟨disk₂, stored, -, tables⟩ := storeTables_image order masterDir index target w' size room
    found.small (Nat.lt_of_lt_of_le found.usable.2 total)
  have apart : p ∉ new := by
    intro again
    have free := (copied.fresh p again).2
    change Lib.bitmapGet (content bits) p = false at free
    rw [set, bitmapGet_bitmapSet, if_pos rfl] at free
    cases free
  refine ⟨⟨disk₂, p :: new, ?_, ?_, ?_⟩, ?_⟩
  · rw [writeFile, found.took]
    refine (Prog.bind_of_returned ran).trans ?_
    dsimp only
    rw [if_neg (not_not.2 all), if_pos rfl]
    exact stored
  · rw [List.length_cons, count, Nat.add_comm]
  · refine ⟨List.nodup_cons.2 ⟨apart, copied.nodup⟩, ?_, fun b => ?_⟩
    · intro b mem
      rcases List.mem_cons.1 mem with rfl | later
      · exact ⟨found.usable.2, found.clear⟩
      · obtain ⟨inside', free⟩ := copied.fresh b later
        change Lib.bitmapGet (content bits) b = false at free
        have other : b ≠ p := fun same => apart (same ▸ later)
        rw [set, bitmapGet_bitmapSet, if_neg other] at free
        exact ⟨inside'.2, free⟩
    · have marked := copied.marks b
      change _ ↔ Lib.bitmapGet (content bits) b = true ∨ b ∈ new at marked
      rw [tables, Function.update_self, marked, set, bitmapGet_bitmapSet, List.mem_cons]
      by_cases same : b = p
      · simp [same]
      · simp [same]
  · intro bits' mem
    unfold writeTries at mem
    rw [found.took] at mem
    rcases List.mem_cons.1 mem with rfl | later
    · exact found.inside
    · exact tries bits' later

theorem writeFile_short (few : Lib.free (content bat) (reach n) < 1 + takes 0 source.length) :
    (searched n ≤ 4096 →
      (∃ disk', writeFile order (takeBlock order n) n data masterDir bat index source target disk =
        .returned (false, disk')) ∧
      ∀ bits ∈ writeTries order (takeBlock order n) n data bat source, Inside order n bits) ∧
    (4096 < searched n →
      ∃ bits ∈ writeTries order (takeBlock order n) n data bat source, Looks order n bits 4096) := by
  rw [writeFile, writeTries]
  by_cases some_ : 0 < Lib.free (content bat) (reach n)
  · obtain ⟨p, bits, found⟩ := takeBlock_found order word system some_
    have fewer := found.fewer
    have least := free_le (content bat) (reach n)
    have bound : reach n ≤ n := Nat.le_trans (Nat.min_le_left _ _) (searched_le word)
    have less : Lib.free (content bits) (reach n) < n := by omega
    have left : Lib.free (content bits) (reach n) < takes 0 source.length := by omega
    obtain ⟨fits, beyond⟩ := @writeLoop_short order n word n 0
      ⟨0, source, data, bits, fun _ => 0⟩ disk total (found.system system) less rfl
      (by rw [Nat.zero_add]; exact most) left
    rw [found.took]
    refine ⟨fun inReach => ?_, fun many => ?_⟩
    · obtain ⟨⟨w', disk₁, ran⟩, tries⟩ := fits inReach
      refine ⟨⟨disk₁, (Prog.bind_of_returned ran).trans ?_⟩, fun bits' mem => ?_⟩
      · dsimp only
        split
        · rfl
        · rfl
      · rcases List.mem_cons.1 mem with rfl | later
        · exact found.inside
        · exact tries bits' later
    · obtain ⟨bits', mem, looks⟩ := beyond many
      exact ⟨bits', List.mem_cons_of_mem _ mem, looks⟩
  · obtain ⟨fits, beyond⟩ := takeBlock_full order word (Nat.eq_zero_of_not_pos some_)
    refine ⟨fun inReach => ?_, fun many => ⟨bat, List.mem_cons_self, beyond many⟩⟩
    obtain ⟨⟨bits, took⟩, looks⟩ := fits inReach
    rw [took]
    refine ⟨⟨_, rfl⟩, fun bits' mem => ?_⟩
    rw [List.mem_singleton.1 mem]
    exact looks

end Command

/-- `num_blocks` of `tfstool_write`. -/
def numBlocks (disk : HostFile) : Nat := toUint32 (tfstoolNumblocks disk : Nat)

/-- The arrays that `tfstool_write` searches once the bitmap block is read. -/
def tfstoolTries (order : ByteOrder) (bat data : Bytes) (source : List Byte) (disk : HostFile) :
    List Bytes :=
  match readBlock bat TFS_ALLOCATION_BLOCK disk with
  | .returned (some bat, _) =>
      writeTries order (takeBlock order (numBlocks disk)) (numBlocks disk) data bat source
  | _ => []

/-- **The tool takes what the file needs**: an inode and the blocks that the bytes fill, all
of them blocks of the image that the bitmap block has bits for.  It fails if there are not so
many, and never leaves the bitmap block. -/
structure UsesBlocks (order : ByteOrder) (masterDir bat data : Bytes) (source : List Byte)
    (target : Name) (disk : HostFile) : Prop where
  succeeds : (∃ disk', tfstoolWrite order masterDir bat data source target disk =
      .returned (true, disk')) ↔
    1 + blocksOf source.length ≤ Lib.free (imageOf disk 1) (min (tfstoolNumblocks disk) 4096)
  picks : ∀ disk', tfstoolWrite order masterDir bat data source target disk =
      .returned (true, disk') →
    ∃ new : List Nat, new.length = 1 + blocksOf source.length ∧
      Sets (imageOf disk 1) (imageOf disk' 1) (min (tfstoolNumblocks disk) 4096) new
  inside : ∀ bits ∈ tfstoolTries order bat data source disk, Inside order (numBlocks disk) bits

/-- No entry of the directory has the name, as the tool compares names. -/
def NewName (disk : HostFile) (target : Name) : Prop :=
  ∀ j < 25, nameCompare (imageOf disk 2).byte j target ≠ 0

theorem strncmp_congr (n : Nat) :
    ∀ {a b c : Bytes}, (∀ k < n, a k = b k) → strncmp n a c = strncmp n b c := by
  induction n with
  | zero => exact fun _ => rfl
  | succ n ih =>
      intro a b c same
      rw [strncmp, strncmp, same 0 (Nat.succ_pos n), ih fun k less => same (k + 1) (by omega)]

section Theorem

variable {order : ByteOrder} {disk : HostFile} (room : 3 ≤ tfstoolNumblocks disk) {target : Name}
  (new : NewName disk target) (slot : ∃ j < 25, entryInode (imageOf disk 2) j = 0)
  (masterDir bat data : Bytes) (source : List Byte)

include room new slot

/-- With the name new and an entry unused, the command comes to the blocks. -/
theorem tfstoolWrite_start :
    ∃ masterDir' bat' index, readBlock bat TFS_ALLOCATION_BLOCK disk =
        .returned (some bat', disk) ∧ content bat' = imageOf disk 1 ∧
      tfstoolWrite order masterDir bat data source target disk =
        writeFile order (takeBlock order (numBlocks disk)) (numBlocks disk) data masterDir' bat'
          index source target disk := by
  obtain ⟨masterDir', readDirectory, directory⟩ := readBlock_image disk
    TFS_DIRECTORY_BLOCK masterDir (by decide) room
  obtain ⟨bat', readBitmap, bitmap⟩ := readBlock_image disk
    TFS_ALLOCATION_BLOCK bat (by decide) (Nat.lt_of_succ_lt room)
  change content masterDir' = imageOf disk 2 at directory
  have absent : ¬ ((List.range TFS_MAX_FILES).any fun i =>
      decide (nameCompare masterDir' i target = 0)) = true := by
    rw [List.any_eq_true]
    rintro ⟨i, mem, same⟩
    have inside : i < 25 := List.mem_range.1 mem
    apply new i inside
    rw [← of_decide_eq_true same]
    refine strncmp_congr TFS_FILENAME_MAX fun k less => ?_
    change k < 16 at less
    rw [← directory, content_byte masterDir' (by omega)]
  cases free : (List.range TFS_MAX_FILES).find?
      fun i => decide (hostWord order masterDir' (5 * i) = 0) with
  | none =>
      obtain ⟨j, inside, unused⟩ := slot
      have used := List.find?_eq_none.1 free j (List.mem_range.2 inside)
      rw [← directory] at unused
      exact absurd (decide_eq_true ((hostWord_eq_zero order masterDir' (by omega)).2 unused)) used
  | some index =>
      refine ⟨masterDir', bat', index, readBitmap, bitmap, ?_⟩
      rw [tfstoolWrite, Prog.bind_of_returned readDirectory]
      dsimp only
      rw [if_neg absent, free]
      dsimp only
      rw [Prog.bind_of_returned readBitmap]
      rfl

/-- **When the tool takes what the file needs**: if there is room, the last block of the source
is not full, and enough blocks are among those that the 32-bit number of blocks leaves to be
searched; if there is not, no more bits are searched than the bitmap block has. -/
theorem usesBlocks_iff (system : ∀ b < 3, Lib.bitmapGet (imageOf disk 1) b = true)
    (most : source.length ≤ 65024) :
    UsesBlocks order masterDir bat data source target disk ↔
      (1 + blocksOf source.length ≤
          Lib.free (imageOf disk 1) (min (tfstoolNumblocks disk) 4096) →
        ¬ FullEnd source.length ∧
          1 + blocksOf source.length ≤ Lib.free (imageOf disk 1) (reach (numBlocks disk))) ∧
      (Lib.free (imageOf disk 1) (min (tfstoolNumblocks disk) 4096) < 1 + blocksOf source.length →
        searched (numBlocks disk) ≤ 4096) := by
  obtain ⟨masterDir', bat', index, loaded, bitmap, start⟩ :=
    @tfstoolWrite_start order disk room target new slot masterDir bat data source
  have word : numBlocks disk < 0x100000000 := by
    unfold numBlocks toUint32
    omega
  have fewer : numBlocks disk ≤ tfstoolNumblocks disk := by
    unfold numBlocks toUint32
    omega
  have searchedFew : searched (numBlocks disk) ≤ tfstoolNumblocks disk :=
    Nat.le_trans (searched_le word) fewer
  have total : reach (numBlocks disk) ≤ tfstoolNumblocks disk :=
    Nat.le_trans (Nat.min_le_left _ _) searchedFew
  have tries : tfstoolTries order bat data source disk =
      writeTries order (takeBlock order (numBlocks disk)) (numBlocks disk) data bat' source := by
    rw [tfstoolTries, loaded]
  have most' := takes_eq most
  have wanted : 1 + blocksOf source.length ≤ 1 + takes 0 source.length := by
    rw [most']
    split <;> omega
  have exactly : takes 0 source.length = blocksOf source.length ↔ ¬ FullEnd source.length := by
    rw [most']
    unfold FullEnd
    split <;> simp_all
  have within : reach (numBlocks disk) ≤ min (tfstoolNumblocks disk) 4096 :=
    min_le_min_right _ searchedFew
  have mono := free_mono (imageOf disk 1) within
  have beyond : 4096 < searched (numBlocks disk) →
      reach (numBlocks disk) = min (tfstoolNumblocks disk) 4096 := by
    intro many
    unfold reach
    rw [Nat.min_eq_right (Nat.le_of_lt many), Nat.min_eq_right (by omega)]
  rw [← bitmap] at system
  have enough := writeFile_enough order word total system most data masterDir' index target room
  have short := writeFile_short order word total system most data masterDir' index target
  change content bat' = imageOf disk 1 at bitmap
  rw [bitmap, ← start, ← tries] at enough short
  constructor
  · intro uses
    have stays : ∀ bits ∈ tfstoolTries order bat data source disk,
        ¬ Looks order (numBlocks disk) bits 4096 :=
      fun bits mem looks => absurd (uses.inside bits mem 4096 looks) (Nat.lt_irrefl _)
    refine ⟨fun fits => ?_, fun few => ?_⟩
    · obtain ⟨disk', ran⟩ := uses.succeeds.2 fits
      by_cases all : 1 + takes 0 source.length ≤ Lib.free (imageOf disk 1) (reach (numBlocks disk))
      · obtain ⟨⟨disk₁, taken, ran', count, sets⟩, -⟩ := enough all
        obtain rfl : disk' = disk₁ :=
          (Prod.mk.inj (Outcome.returned.inj (ran.symm.trans ran'))).2
        obtain ⟨picked, count', sets'⟩ := uses.picks disk' ran
        have same := sets.length_eq sets'
        exact ⟨exactly.1 (by omega), by omega⟩
      · obtain ⟨fails, leaves⟩ := short (Nat.lt_of_not_le all)
        by_cases few : searched (numBlocks disk) ≤ 4096
        · obtain ⟨⟨disk₁, ran'⟩, -⟩ := fails few
          exact absurd (Prod.mk.inj (Outcome.returned.inj (ran.symm.trans ran'))).1 (by decide)
        · obtain ⟨bits, mem, looks⟩ := leaves (Nat.lt_of_not_le few)
          exact absurd looks (stays bits mem)
    · by_contra many
      have same := beyond (Nat.lt_of_not_le many)
      obtain ⟨bits, mem, looks⟩ := (short (by rw [same]; omega)).2 (Nat.lt_of_not_le many)
      exact stays bits mem looks
  · rintro ⟨roomy, tight⟩
    by_cases fits : 1 + blocksOf source.length ≤
        Lib.free (imageOf disk 1) (min (tfstoolNumblocks disk) 4096)
    · obtain ⟨notFull, some_⟩ := roomy fits
      have count := exactly.2 notFull
      obtain ⟨⟨disk₁, taken, ran, length, sets⟩, inside⟩ := enough (by omega)
      refine ⟨iff_of_true ⟨disk₁, ran⟩ fits, fun disk' ran' => ?_, inside⟩
      obtain rfl : disk' = disk₁ :=
        (Prod.mk.inj (Outcome.returned.inj (ran'.symm.trans ran))).2
      exact ⟨taken, by omega, sets.weaken within⟩
    · have few := Nat.lt_of_not_le fits
      obtain ⟨⟨disk₁, ran⟩, inside⟩ := (short (by omega)).1 (tight few)
      have never : ∀ disk', tfstoolWrite order masterDir bat data source target disk ≠
          .returned (true, disk') := fun disk' ran' =>
        absurd (Prod.mk.inj (Outcome.returned.inj (ran'.symm.trans ran))).1 (by decide)
      exact ⟨iff_of_false (fun ⟨disk', ran'⟩ => never disk' ran') fits,
        fun disk' ran' => absurd ran' (never disk'), inside⟩

end Theorem

/-! ## An image of five blocks -/

theorem newName_fiveDisk : NewName fiveDisk letter := by
  unfold NewName
  decide +kernel

theorem slot_fiveDisk : ∃ j < 25, entryInode (imageOf fiveDisk 2) j = 0 :=
  ⟨0, by decide, by decide +kernel⟩

theorem system_fiveDisk : ∀ b < 3, Lib.bitmapGet (imageOf fiveDisk 1) b = true := by
  decide +kernel

theorem free_fiveDisk : Lib.free (imageOf fiveDisk 1) 5 = 2 := by decide +kernel

theorem numblocks_fiveDisk : tfstoolNumblocks fiveDisk = 5 := by decide +kernel

theorem searched_fiveDisk : searched (numBlocks fiveDisk) = 5 := by
  rw [numBlocks, numblocks_fiveDisk]
  decide

/-- One byte takes the two blocks that are free. -/
theorem usesBlocks_iff_oneByte :
    UsesBlocks .big (fun _ => 0) (fun _ => 0) (fun _ => 0) [0x61#8] letter fiveDisk := by
  have reached : reach (numBlocks fiveDisk) = 5 := by
    rw [reach, searched_fiveDisk]
    decide
  refine (usesBlocks_iff (by rw [numblocks_fiveDisk]; decide) newName_fiveDisk slot_fiveDisk
    (fun _ => 0) (fun _ => 0) (fun _ => 0) [0x61#8] system_fiveDisk (by decide)).2
    ⟨fun _ => ⟨by unfold FullEnd; decide, ?_⟩, fun _ => by rw [searched_fiveDisk]; decide⟩
  rw [reached, free_fiveDisk]
  decide

def wholeBlock : List Byte := List.replicate 512 0x61#8

/-- **A whole block** does not fit where two blocks are free, although it needs no more. -/
theorem usesBlocks_wholeBlock :
    3 ≤ tfstoolNumblocks fiveDisk ∧ NewName fiveDisk letter ∧
      (∃ j < 25, entryInode (imageOf fiveDisk 2) j = 0) ∧
      (∀ b < 3, Lib.bitmapGet (imageOf fiveDisk 1) b = true) ∧
      ¬ UsesBlocks .big (fun _ => 0) (fun _ => 0) (fun _ => 0) wholeBlock letter fiveDisk := by
  refine ⟨by rw [numblocks_fiveDisk]; decide, newName_fiveDisk, slot_fiveDisk, system_fiveDisk,
    fun uses => ?_⟩
  have enough : 1 + blocksOf wholeBlock.length ≤
      Lib.free (imageOf fiveDisk 1) (min (tfstoolNumblocks fiveDisk) 4096) := by
    have small : min 5 4096 = 5 := by omega
    rw [wholeBlock, List.length_replicate, numblocks_fiveDisk, small, free_fiveDisk]
    decide
  obtain ⟨disk', ran⟩ := uses.succeeds.2 enough
  have failed : succeeded (tfstoolWrite .big (fun _ => 0) (fun _ => 0) (fun _ => 0) wholeBlock
      letter fiveDisk) = false := by decide +kernel
  rw [ran] at failed
  cases failed

end Buenos.Util
