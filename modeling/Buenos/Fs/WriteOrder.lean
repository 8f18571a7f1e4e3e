/-
# Fs.WriteOrder -- the image on the disk between two writes

A driver gives up at the first request that is refused, so the state in which it returns shows
what is on the disk between two requests, as it would be found after a crash there.  `Ordered` is
what should hold of the image at every such point: each used entry names a marked block that
holds the inode written for the file, and all the blocks that this inode lists are marked.  It is
stated for any format of inodes, given the blocks that an inode lists.

A creation writes the bitmap, the directory and the inode in this order.  `CreatePoint` says how
far it has come, and only one of its points is out of order: `CreatePoint.ordered_iff`.
-/
import Buenos.Fs.DiskLog
import Buenos.Fs.FlatAlloc
import Buenos.Fs.TfsImage

namespace Buenos.Fs

open Buenos.Lib Buenos.Theory

set_option autoImplicit false

/-! ## Requests come back -/

section Requests

variable {β α : Type} {s : Volume β} {block : Word} {b : β}

theorem diskSubmitRequest_returns (request : Request) (done : Disk → Disk) {d : Disk}
    (inside : request.block < d.totalBlocks) :
    ∃ ok e, diskSubmitRequest request done d = .returned (ok, e) := by
  unfold diskSubmitRequest
  by_cases served : d.answers d.asked = true
  · rw [if_pos served, if_pos inside]
    exact ⟨_, _, rfl⟩
  · rw [if_neg served]
    exact ⟨_, _, rfl⟩

/-- **A write** to a block of the device comes back, served or refused. -/
theorem writeBuffer_ends (inside : block.toNat < s.disk.totalBlocks) :
    (writeBuffer block b).Ends s fun ok t =>
      (ok = true ∧ t = s.didWrite block.toNat (s.buffer b)) ∨ (ok = false ∧ t = s.wasRefused) := by
  obtain ⟨ok, e, served⟩ := diskSubmitRequest_returns ⟨block.toNat, .write⟩
    (fun d => { d with blocks := Function.update d.blocks block.toNat (s.buffer b) }) inside
  have ran : writeBuffer block b s = .returned (ok, { s with disk := e }) := by
    unfold writeBuffer writeBlock
    exact Prog.zoom_returned.2 ⟨e, served, rfl⟩
  exact ⟨ok, _, ran, writeBuffer_outcome s block b ok _ ran⟩

/-- **A read** of a block of the device comes back, served or refused. -/
theorem readBlock_ends [DecidableEq β] (inside : block.toNat < s.disk.totalBlocks) :
    (readBlock block b).Ends s fun ok t =>
      (ok = true ∧ t = s.didRead block.toNat b) ∨ (ok = false ∧ t = s.wasRefused) := by
  obtain ⟨ok, e, served⟩ := diskSubmitRequest_returns ⟨block.toNat, .read⟩ id inside
  have ran : ∃ t, readBlock block b s = .returned (ok, t) := by
    unfold readBlock
    rw [served]
    cases ok with
    | false => exact ⟨_, rfl⟩
    | true => exact ⟨_, rfl⟩
  obtain ⟨t, ran⟩ := ran
  exact ⟨ok, t, ran, readBlock_outcome s block b ok t ran⟩

theorem unlock_ends (a : α) : (unlock a : Prog (Volume β) α).Ends s fun _ _ => True :=
  ⟨_, _, rfl, trivial⟩

theorem ends_gets {γ : Type} {g : Volume β → γ} {f : γ → Prog (Volume β) α} {Q : α → Volume β → Prop}
    (rest : (f (g s)).Ends s Q) : (Prog.gets g >>= f).Ends s Q := rest

theorem ends_modify {g : Volume β → Volume β} {f : Unit → Prog (Volume β) α}
    {Q : α → Volume β → Prop} (rest : (f ()).Ends (g s) Q) : (Prog.modify g >>= f).Ends s Q := rest

end Requests

/-! ## The image between two writes -/

/-- The block of the last write among the requests served, the latest first. -/
def lastWrite (asked : List Request) : Option Nat :=
  (asked.find? fun request => request.operation = .write).map fun request => request.block

theorem lastWrite_cons (b : Nat) (asked : List Request) :
    lastWrite (⟨b, .write⟩ :: asked) = some b := rfl

theorem lastWrite_mem {asked : List Request} {b : Nat} (last : lastWrite asked = some b) :
    ⟨b, .write⟩ ∈ asked := by
  obtain ⟨⟨block, operation⟩, found, rfl⟩ := Option.map_eq_some_iff.1 last
  obtain rfl : operation = .write := by simpa using List.find?_some found
  exact List.mem_of_find?_eq_some found

theorem lastWrite_reads {asked : List Request}
    (reads : ∀ request ∈ asked, request.operation = .read) : lastWrite asked = none := by
  rw [lastWrite, Option.map_eq_none_iff, List.find?_eq_none]
  intro request mem
  rw [reads request mem]
  decide

theorem lastWrite_append (late early : List Request) :
    lastWrite (late ++ early) = (lastWrite late).or (lastWrite early) := by
  simp [lastWrite, List.find?_append, Option.map_or]

section Order

/-- Entry `j` holds the inode written for its file: the one it held before the operation, or one
that the operation has made and written. -/
def InodeWritten (made : Block → Prop) (old blocks : Nat → Block) (asked : List Request) (j : Nat) :
    Prop :=
  (Used (old 2) j ∧ inodeOf blocks j = inodeOf old j ∧
      blocks (inodeOf blocks j) = old (inodeOf blocks j)) ∨
    (⟨inodeOf blocks j, .write⟩ ∈ asked ∧ made (blocks (inodeOf blocks j)))

variable (listed : (Nat → Block) → Block → List Nat) (made : Block → Prop)

/-- A used entry names a marked block that holds the inode written for the file, and every block
listed in that inode is marked. -/
structure EntryOrdered (old blocks : Nat → Block) (asked : List Request) (j : Nat) : Prop where
  inode : Marked blocks (inodeOf blocks j)
  written : InodeWritten made old blocks asked j
  listed : ∀ b ∈ listed blocks (blocks (inodeOf blocks j)), Marked blocks b

def Ordered (old blocks : Nat → Block) (asked : List Request) : Prop :=
  ∀ j, Used (blocks 2) j → EntryOrdered listed made old blocks asked j

/-- What the files of an image own is marked, and decides what they own. -/
structure Owning (blocks : Nat → Block) : Prop where
  marked : ∀ k, Used (blocks 2) k →
    ∀ b ∈ inodeOf blocks k :: listed blocks (blocks (inodeOf blocks k)), 3 ≤ b ∧ Marked blocks b
  frame : ∀ blocks' k, Used (blocks 2) k → (∀ b, 3 ≤ b → Marked blocks b → blocks' b = blocks b) →
    listed blocks' (blocks (inodeOf blocks k)) = listed blocks (blocks (inodeOf blocks k))

variable {listed made} {old blocks : Nat → Block} {asked : List Request}

/-- An image in order once more. -/
theorem Owning.ordered (owning : Owning listed blocks)
    (written : ∀ k, Used (blocks 2) k → InodeWritten made old blocks asked k) :
    Ordered listed made old blocks asked := fun k used =>
  { inode := (owning.marked k used _ List.mem_cons_self).2
    written := written k used
    listed := fun b mem => (owning.marked k used b (List.mem_cons_of_mem _ mem)).2 }

/-- The marks are kept, and so are the marked blocks but the tables. -/
structure Saved (old blocks : Nat → Block) : Prop where
  marks : ∀ b, Marked old b → Marked blocks b
  kept : ∀ b, 3 ≤ b → Marked old b → blocks b = old b

/-- An entry that was there before. -/
theorem Saved.entry (saved : Saved old blocks) (owning : Owning listed old) {k : Nat}
    (used : Used (old 2) k) (same : entryInode (blocks 2) k = entryInode (old 2) k) :
    EntryOrdered listed made old blocks asked k := by
  have place : inodeOf blocks k = inodeOf old k := by
    unfold inodeOf
    rw [same]
  obtain ⟨above, mark⟩ := owning.marked k used _ List.mem_cons_self
  have content : blocks (inodeOf old k) = old (inodeOf old k) := saved.kept _ above mark
  refine ⟨place ▸ saved.marks _ mark, .inl ⟨used, place, place ▸ content⟩, fun b mem => ?_⟩
  rw [place, content, owning.frame blocks k used saved.kept] at mem
  exact saved.marks b (owning.marked k used b (List.mem_cons_of_mem _ mem)).2

/-- Inode block `p` and the blocks it lists were free. -/
structure NewFile (listed : (Nat → Block) → Block → List Nat) (n : Nat) (old blocks : Nat → Block)
    (p : Nat) : Prop where
  nodup : (p :: listed blocks (blocks p)).Nodup
  fresh : ∀ b ∈ p :: listed blocks (blocks p), b < n ∧ ¬Marked old b

/-- How far a creation has come: the directory is as it was, or it has the new entry, with or
without its inode on the disk. -/
structure CreatePoint (listed : (Nat → Block) → Block → List Nat) (made : Block → Prop) (n : Nat)
    (old blocks : Nat → Block) (asked : List Request) : Prop where
  saved : Saved old blocks
  point : (blocks 2 = old 2 ∧ lastWrite asked ≠ some 2) ∨
    ∃ j name p, EntrySet (old 2) (blocks 2) j name (BitVec.ofNat 32 p) ∧ entryInode (old 2) j = 0 ∧
      (0 < p ∧ p < 4096) ∧ name.length < 16 ∧
      ((lastWrite asked = some 2 ∧ ⟨p, .write⟩ ∉ asked) ∨
        (lastWrite asked ≠ some 2 ∧ EntryOrdered listed made old blocks asked j ∧
          NewFile listed n old blocks p))

/-- **A creation** leaves an image out of order exactly between the writes of the directory and of
the inode. -/
theorem CreatePoint.ordered_iff {n : Nat}
    (point : CreatePoint listed made n old blocks asked) (owning : Owning listed old) :
    Ordered listed made old blocks asked ↔ lastWrite asked ≠ some 2 := by
  obtain ⟨saved, ⟨same, early⟩ | ⟨j, name, p, entry, free, ⟨positive, small⟩, -, late⟩⟩ := point
  · refine iff_of_true (fun k used => ?_) early
    rw [same] at used
    exact saved.entry owning used (by rw [same])
  have number : (BitVec.ofNat 32 p).toNat = p := Volume.toNat_ofNat small
  have used : Used (blocks 2) j := by
    refine ⟨entry.inside, ?_⟩
    rw [entry.inode]
    intro zero
    rw [zero] at number
    exact absurd number (Nat.ne_of_lt positive)
  have place : inodeOf blocks j = p := by rw [inodeOf, entry.inode, number]
  rcases late with ⟨last, unwritten⟩ | ⟨last, ordered, -⟩
  · refine iff_of_false (fun ordered => ?_) (not_not_intro last)
    rcases (ordered j used).written with ⟨before, -⟩ | ⟨written, -⟩
    · exact before.2 free
    · rw [place] at written
      exact unwritten written
  · refine iff_of_true (fun k used => ?_) last
    by_cases new : k = j
    · rw [new]
      exact ordered
    · have same := entry.inodes k used.1 new
      exact saved.entry owning ⟨used.1, same ▸ used.2⟩ same

section Points

variable {n : Nat} {early : List Request} {u : Nat → Block} {bat md : Block} {j p : Nat}
  {name : Name}

/-- Up to here nothing has been written but unmarked blocks. -/
structure Untouched (old u : Nat → Block) (early : List Request) : Prop where
  system : ∀ b < 3, Marked old b
  unmarked : ∀ x, ⟨x, .write⟩ ∈ early → ¬Marked old x
  kept : ∀ x, ⟨x, .write⟩ ∉ early → u x = old x

namespace Untouched

variable (untouched : Untouched old u early)

include untouched

theorem marked {b : Nat} (mark : Marked old b) : u b = old b :=
  untouched.kept b fun mem => untouched.unmarked b mem mark

theorem last {b : Nat} (small : b < 3) : lastWrite early ≠ some b :=
  fun last => untouched.unmarked b (lastWrite_mem last) (untouched.system b small)

/-- Before the bitmap is written. -/
theorem start : CreatePoint listed made n old u early where
  saved :=
    { marks := fun b mark => by
        have same := untouched.marked (untouched.system 1 (by decide))
        rwa [Marked, same]
      kept := fun b _ mark => untouched.marked mark }
  point := .inl ⟨untouched.marked (untouched.system 2 (by decide)), untouched.last (by decide)⟩

variable (marks : ∀ b, Marked old b → bitmapGet bat b = true)

include marks

/-- With the bitmap in place, whatever the directory is. -/
theorem saved {blocks : Nat → Block} (bitmap : blocks 1 = bat)
    (rest : ∀ b, 3 ≤ b → Marked old b → blocks b = u b) : Saved old blocks where
  marks := fun b mark => ⟨mark.1, by rw [bitmap]; exact marks b mark⟩
  kept := fun b above mark => (rest b above mark).trans (untouched.marked mark)

/-- With the bitmap written. -/
theorem bitmap :
    CreatePoint listed made n old (Function.update u 1 bat) (⟨1, .write⟩ :: early) where
  saved := untouched.saved marks (Function.update_self ..) fun b above _ =>
    Function.update_of_ne (by omega) _ _
  point := by
    refine .inl ⟨?_, by rw [lastWrite_cons]; decide⟩
    rw [Function.update_of_ne (by decide)]
    exact untouched.marked (untouched.system 2 (by decide))

variable (entry : EntrySet (old 2) md j name (BitVec.ofNat 32 p)) (free : entryInode (old 2) j = 0)
  (number : 3 ≤ p ∧ p < 4096) (short : name.length < 16)

include entry free number short

/-- With the directory written. -/
theorem directory (unwritten : ⟨p, .write⟩ ∉ early) :
    CreatePoint listed made n old (Function.update (Function.update u 1 bat) 2 md)
      (⟨2, .write⟩ :: ⟨1, .write⟩ :: early) where
  saved := by
    refine untouched.saved marks ?_ fun b above _ => ?_
    · rw [Function.update_of_ne (by decide), Function.update_self]
    · rw [Function.update_of_ne (by omega), Function.update_of_ne (by omega)]
  point := by
    refine .inr ⟨j, name, p, ?_, free, by omega, short, .inl ⟨rfl, ?_⟩⟩
    · rw [Function.update_self]
      exact entry
    · rintro (_ | ⟨_, _ | ⟨_, mem⟩⟩)
      · omega
      · omega
      · exact unwritten mem

/-- With the inode written. -/
theorem inode {blocks : Nat → Block} (isBitmap : blocks 1 = bat) (isDirectory : blocks 2 = md)
    (rest : ∀ b, 3 ≤ b → Marked old b → blocks b = u b) (last : lastWrite asked ≠ some 2)
    (ordered : EntryOrdered listed made old blocks asked j) (file : NewFile listed n old blocks p) :
    CreatePoint listed made n old blocks asked where
  saved := untouched.saved marks isBitmap rest
  point := .inr ⟨j, name, p, isDirectory ▸ entry, free, by omega, short, .inr ⟨last, ordered, file⟩⟩

end Untouched

end Points

end Order

/-! ## Calls and their points -/

namespace Volume

variable {β : Type} {s t u : Volume β} {asked : List Request}
  {P : (Nat → Block) → List Request → Prop}

/-- From `s` to `t` requests were served, and `P` holds of the image and of these. -/
def Reaches (P : (Nat → Block) → List Request → Prop) (s t : Volume β) : Prop :=
  ∃ asked, Asked s t asked ∧ P t.blocks asked

theorem Asked.reaches (here : Asked s t asked) (holds : P t.blocks asked) : Reaches P s t :=
  ⟨asked, here, holds⟩

theorem Reaches.unlock {α : Type} (reaches : Reaches P s t) (a : α) :
    (Fs.unlock a : Prog (Volume β) α).Keeps t fun _ u => Reaches P s u := by
  intro _ u ran
  cases ran
  obtain ⟨asked, here, holds⟩ := reaches
  exact ⟨asked, ⟨here.served, here.kept⟩, holds⟩

theorem Asked.wasRefused_after (here : Asked s t asked) : Asked s t.wasRefused asked :=
  here.append (.wasRefused t)

theorem lockP_outcome (s : Volume β) :
    (lockP : Prog (Volume β) Unit).Keeps s fun _ t => t = s.locked := by
  intro _ t ran
  unfold lockP at ran
  split at ran
  · cases ran
    rfl
  · cases ran

/-- Reading leaves everything untouched. -/
theorem Asked.untouched {old : Nat → Block} (here : Asked s t asked) (same : s.blocks = old)
    (system : ∀ b < 3, Marked old b) (reads : ∀ request ∈ asked, request.operation = .read) :
    Untouched old t.blocks asked where
  system := system
  unmarked := fun x mem => absurd (reads _ mem) (by simp)
  kept := fun x absent => by rw [here.kept x absent, same]

end Volume

end Buenos.Fs
