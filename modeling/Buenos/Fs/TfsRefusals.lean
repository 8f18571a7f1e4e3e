/-
# Fs.TfsRefusals -- TFS on a disk that refuses requests

Every call of `tfs_create` and `tfs_remove` returns, whatever requests are refused, and leaves the
lock and the sizes of the volume as they were.  `tfs_write_order` says when what it leaves on the
disk is in order: unless it was stopped between the directory and the inode of a creation, or
between the bitmap and the directory of a removal.  `tfs_survives_refusals` is about whole runs in
which that does not happen, with any other requests refused.
-/
import Buenos.Fs.DriverLocks
import Buenos.Fs.TfsOrder
import Buenos.Theory.Run

namespace Buenos.Fs

open Buenos.Lib Buenos.Theory

set_option autoImplicit false

/-! ## Every call returns -/

/-- A consistent volume with its lock free, on a disk that may refuse requests. -/
structure TfsIdle (s : Tfs) : Prop where
  free : 0 < s.lock
  room : 3 ≤ s.totalblocks
  fits : s.totalblocks ≤ s.disk.totalBlocks
  small : s.totalblocks ≤ 4096
  sound : TfsSound s.totalblocks s.blocks

theorem tfsZeroBlocks_ends (n : Nat) (i : Nat) (s : Tfs)
    (inside : ∀ k < n, (s.buffer .inode (directWord (i + k))).toNat < s.disk.totalBlocks) :
    (tfsZeroBlocks i n).Ends s fun _ _ => True := by
  induction n generalizing i s with
  | zero => exact ⟨_, _, rfl, trivial⟩
  | succ n ih =>
      have stored : (tfsSave i).Ends s _ := ends_gets (writeBuffer_ends (inside 0 (Nat.succ_pos n)))
      refine stored.bind fun ok t wrote => ?_
      rcases wrote with ⟨rfl, rfl⟩ | ⟨rfl, rfl⟩
      · refine ih (i + 1) _ fun k less => ?_
        have := inside (k + 1) (by omega)
        rwa [show i + (k + 1) = i + 1 + k by omega] at this
      · exact ⟨_, _, rfl, trivial⟩

theorem tfsCreateStore_ends {w : Tfs} {j n : Nat} (room : 3 ≤ w.disk.totalBlocks)
    (named : (entryInode (w.buffer .md) j).toNat < w.disk.totalBlocks)
    (inside : ∀ k < n, (w.buffer .inode (directWord k)).toNat < w.disk.totalBlocks) :
    (tfsCreateStore j n).Ends w fun _ _ => True := by
  refine (writeBuffer_ends ?_).bind fun ok t wrote => ?_
  · exact Nat.lt_of_lt_of_le (by decide) room
  rcases wrote with ⟨rfl, rfl⟩ | ⟨rfl, rfl⟩
  case inr => exact unlock_ends _
  refine (writeBuffer_ends ?_).bind fun ok t wrote => ?_
  · exact Nat.lt_of_lt_of_le (by decide) room
  rcases wrote with ⟨rfl, rfl⟩ | ⟨rfl, rfl⟩
  case inr => exact unlock_ends _
  refine ends_gets ((writeBuffer_ends ?_).bind fun ok t wrote => ?_)
  · exact named
  rcases wrote with ⟨rfl, rfl⟩ | ⟨rfl, rfl⟩
  case inr => exact unlock_ends _
  refine ends_modify ((tfsZeroBlocks_ends n 0 _ fun k less => ?_).bind fun ok t _ => ?_)
  · rw [Nat.zero_add]
    exact inside k less
  cases ok with
  | false => exact unlock_ends _
  | true => exact unlock_ends _

theorem tfsRemoveStore_ends {w : Tfs} (room : 3 ≤ w.disk.totalBlocks) :
    tfsRemoveStore.Ends w fun _ _ => True := by
  refine (writeBuffer_ends ?_).bind fun ok t wrote => ?_
  · exact Nat.lt_of_lt_of_le (by decide) room
  rcases wrote with ⟨rfl, rfl⟩ | ⟨rfl, rfl⟩
  case inr => exact unlock_ends _
  refine (writeBuffer_ends ?_).bind fun ok t _ => ?_
  · exact Nat.lt_of_lt_of_le (by decide) room
  cases ok with
  | false => exact unlock_ends _
  | true => exact unlock_ends _

section Idle

variable {s : Tfs} (idle : TfsIdle s)

include idle

theorem TfsIdle.onDisk : 3 ≤ s.disk.totalBlocks := Nat.le_trans idle.room idle.fits

theorem TfsIdle.locked : (lockP : Prog Tfs Unit).Ends s fun _ t => t = s.locked :=
  ⟨(), _, Volume.lockP_free idle.free, rfl⟩

theorem tfsCreateAlloc_ends {u : Tfs} (j : Nat) (size : CInt)
    (total : u.totalblocks = s.totalblocks) (device : u.disk.totalBlocks = s.disk.totalBlocks) :
    (tfsCreateAlloc j (numBlocks size) (toUint32 size.val)).Ends u fun _ _ => True := by
  have small : u.totalblocks ≤ 4096 := total ▸ idle.small
  rcases Volume.tfsCreateAlloc_buffered small j (numBlocks size) (toUint32 size.val) with
    ⟨v, stops, -⟩ | ⟨w, p, data, step, count, buffered⟩
  · exact ⟨_, _, stops, trivial⟩
  have onDisk : w.disk.totalBlocks = s.disk.totalBlocks := by rw [buffered.disk, device]
  have inside : ∀ b ∈ p :: data, b < w.disk.totalBlocks := fun b mem => by
    have := (buffered.fresh b mem).1
    rw [total] at this
    rw [onDisk]
    exact Nat.lt_of_lt_of_le this idle.fits
  rw [Prog.ends_congr step]
  refine tfsCreateStore_ends (onDisk ▸ idle.onDisk) ?_ fun k less => ?_
  · rw [buffered.named small]
    exact inside p List.mem_cons_self
  · rw [buffered.table k (count ▸ less)]
    exact inside _ (List.mem_cons_of_mem _ (List.getElem_mem _))

theorem tfsCreate_ends (filename : Name) (size : CInt) :
    (tfsCreate filename size).Ends s fun _ _ => True := by
  refine idle.locked.bind fun _ t here => ?_
  subst here
  by_cases many : TFS_BLOCK_SIZE / 4 - 1 < numBlocks size
  · rw [← numBlocks, if_pos many]
    exact unlock_ends _
  rw [← numBlocks, if_neg many]
  refine (readBlock_ends ?_).bind fun ok t read => ?_
  · exact Nat.lt_of_lt_of_le (by decide) idle.onDisk
  rcases read with ⟨rfl, rfl⟩ | ⟨rfl, rfl⟩
  case inr => exact unlock_ends _
  have md := directory_loaded s
  unfold Prog.Ends
  simp only [if_true, Prog.bind_gets_apply, md]
  cases findEntry (s.blocks 2) filename with
  | some j => exact unlock_ends _
  | none =>
      cases findSlot (s.blocks 2) with
      | none => exact unlock_ends _
      | some j =>
          simp only [Prog.bind_modify_apply]
          refine (readBlock_ends ?_).bind fun ok t read => ?_
          · exact Nat.lt_of_lt_of_le (by decide) idle.onDisk
          rcases read with ⟨rfl, rfl⟩ | ⟨rfl, rfl⟩
          case inr => exact unlock_ends _
          exact tfsCreateAlloc_ends idle j size rfl rfl

theorem tfsRemove_ends {filename : Name} (nonempty : filename ≠ []) :
    (tfsRemove filename).Ends s fun _ _ => True := by
  refine idle.locked.bind fun _ t here => ?_
  subst here
  refine (readBlock_ends ?_).bind fun ok t read => ?_
  · exact Nat.lt_of_lt_of_le (by decide) idle.onDisk
  rcases read with ⟨rfl, rfl⟩ | ⟨rfl, rfl⟩
  case inr => exact unlock_ends _
  have md := directory_loaded s
  unfold Prog.Ends
  simp only [if_true, Prog.bind_gets_apply, md]
  cases found : findEntry (s.blocks 2) filename with
  | none => exact unlock_ends _
  | some j =>
      have used : Used (s.blocks 2) j :=
        ⟨(findEntry_some found).1, findEntry_used idle.sound.blanked nonempty found⟩
      refine (readBlock_ends ?_).bind fun ok t read => ?_
      · exact Nat.lt_of_lt_of_le (by decide) idle.onDisk
      rcases read with ⟨rfl, rfl⟩ | ⟨rfl, rfl⟩
      case inr => exact unlock_ends _
      refine (readBlock_ends ?_).bind fun ok t read => ?_
      · exact Nat.lt_of_lt_of_le (idle.sound.owned (Image.inode_mem used)).2 idle.fits
      rcases read with ⟨rfl, rfl⟩ | ⟨rfl, rfl⟩
      case inr => exact unlock_ends _
      obtain ⟨w, step, disk, -⟩ := tfsRemoveBlocks_buffered idle.sound idle.small
        (u := ((s.locked.didRead 2 TfsBuffer.md).didRead 1 TfsBuffer.bat).didRead (inodeOf s.blocks j)
          TfsBuffer.inode) used (findEntry_some found).2.1 (by simp) (by simp) (by simp)
      refine (Prog.ends_congr step).2 (tfsRemoveStore_ends ?_)
      rw [disk]
      exact idle.onDisk

end Idle

/-! ## What no call changes -/

/-- The number of blocks of the volume and of the device. -/
def Volume.capacity (s : Tfs) : Nat × Nat := (s.totalblocks, s.disk.totalBlocks)

section Extent

theorem writeBuffer_capacity (block : Word) (b : TfsBuffer) :
    Prog.Fixes Volume.capacity (writeBuffer block b) := fun s =>
  (writeBuffer_outcome s block b).mono fun _ t wrote => by
    rcases wrote with ⟨-, rfl⟩ | ⟨-, rfl⟩ <;> rfl

theorem readBlock_capacity (block : Word) (b : TfsBuffer) :
    Prog.Fixes Volume.capacity (readBlock block b) := fun s =>
  (readBlock_outcome s block b).mono fun _ t read => by
    rcases read with ⟨-, rfl⟩ | ⟨-, rfl⟩ <;> rfl

theorem lockP_capacity : Prog.Fixes Volume.capacity (lockP : Prog Tfs Unit) := fun s =>
  (Volume.lockP_outcome s).mono fun _ t here => by rw [here]; rfl

theorem unlock_capacity (result : Int) : Prog.Fixes Volume.capacity (unlock result : Prog Tfs Int) :=
  .bind (.modify fun _ => rfl) fun _ => .pure _

theorem tfsCreateStore_capacity (j n : Nat) : Prog.Fixes Volume.capacity (tfsCreateStore j n) := by
  have zeros : ∀ m i, Prog.Fixes Volume.capacity (tfsZeroBlocks i m) := by
    intro m
    induction m with
    | zero => exact fun i => .pure _
    | succ m ih =>
        exact fun i => .bind (.bind (.gets _) fun block => writeBuffer_capacity block _) fun _ =>
          .ite (ih (i + 1)) (.pure _)
  refine .bind (writeBuffer_capacity _ _) fun _ => .ite ?_ (unlock_capacity _)
  refine .bind (writeBuffer_capacity _ _) fun _ => .ite ?_ (unlock_capacity _)
  refine .bind (.gets _) fun inode => .bind (writeBuffer_capacity inode _) fun _ => ?_
  refine .ite ?_ (unlock_capacity _)
  refine .bind (.modify fun _ => rfl) fun _ => .bind (zeros n 0) fun _ => ?_
  exact .ite (unlock_capacity _) (unlock_capacity _)

theorem tfsCreateAlloc_capacity (j numblocks size : Nat) :
    Prog.Fixes Volume.capacity (tfsCreateAlloc j numblocks size) := by
  have taken (b : TfsBuffer) (i : Nat) : Prog.Fixes Volume.capacity (tfsFindnset b i) := by
    intro s found t ran
    unfold tfsFindnset at ran
    split at ran <;>
    · cases ran
      rfl
  have blocks : ∀ m i, Prog.Fixes Volume.capacity (tfsTakeBlocks i m) := by
    intro m
    induction m with
    | zero => exact fun i => .pure _
    | succ m ih => exact fun i => .bind (taken _ _) fun _ => .ite (ih (i + 1)) (.pure _)
  refine .bind (taken _ _) fun _ => .ite ?_ (unlock_capacity _)
  refine .bind (.modify fun _ => rfl) fun _ => .bind (blocks numblocks 0) fun _ => ?_
  refine .ite ?_ (unlock_capacity _)
  exact .bind (.modify fun _ => rfl) fun _ => tfsCreateStore_capacity j numblocks

theorem tfsCreate_capacity (filename : Name) (size : CInt) :
    Prog.Fixes Volume.capacity (tfsCreate filename size) := by
  refine .bind lockP_capacity fun _ => .ite (unlock_capacity _) ?_
  refine .bind (readBlock_capacity _ _) fun _ => .ite (.bind (.gets _) fun md => ?_) (unlock_capacity _)
  cases findEntry md filename with
  | some j => exact unlock_capacity _
  | none =>
      cases findSlot md with
      | none => exact unlock_capacity _
      | some j =>
          refine .bind (.modify fun _ => rfl) fun _ => .bind (readBlock_capacity _ _) fun _ => ?_
          exact .ite (tfsCreateAlloc_capacity _ _ _) (unlock_capacity _)

theorem tfsRemoveBlocks_capacity (j : Nat) : Prog.Fixes Volume.capacity (tfsRemoveBlocks j) := by
  have freed (block : Word) : Prog.Fixes Volume.capacity (tfsFree block) := by
    intro s
    refine .assert_bind fun _ => .assert_bind fun _ => ?_
    intro _ t ran
    cases ran
    rfl
  have blocks : ∀ m i, Prog.Fixes Volume.capacity (tfsFreeBlocks i m) := by
    intro m
    induction m with
    | zero => exact fun i => .pure _
    | succ m ih =>
        exact fun i => .bind (.gets _) fun block =>
          .ite (.bind (freed block) fun _ => ih (i + 1)) (.pure _)
  refine .bind (.gets _) fun inode => .bind (freed inode) fun _ => .bind (blocks _ _) fun _ => ?_
  refine .bind (.modify fun _ => rfl) fun _ => .bind (.modify fun _ => rfl) fun _ => ?_
  refine .bind (writeBuffer_capacity _ _) fun _ => .ite ?_ (unlock_capacity _)
  exact .bind (writeBuffer_capacity _ _) fun _ => .ite (unlock_capacity _) (unlock_capacity _)

theorem tfsRemove_capacity (filename : Name) : Prog.Fixes Volume.capacity (tfsRemove filename) := by
  refine .bind lockP_capacity fun _ => .bind (readBlock_capacity _ _) fun _ => ?_
  refine .ite (.bind (.gets _) fun md => ?_) (unlock_capacity _)
  cases findEntry md filename with
  | none => exact unlock_capacity _
  | some j =>
      refine .bind (readBlock_capacity _ _) fun _ => .ite ?_ (unlock_capacity _)
      exact .bind (readBlock_capacity _ _) fun _ => .ite (tfsRemoveBlocks_capacity j) (unlock_capacity _)

end Extent

/-! ## Runs of directory operations -/

inductive DirCall where
  | create (filename : Name) (size : CInt)
  | remove (filename : Name)

namespace DirCall

def run : DirCall → Prog Tfs Int
  | .create filename size => tfsCreate filename size
  | .remove filename => tfsRemove filename

/-- A name to remove is not empty. -/
def Legal : DirCall → Prop
  | .create _ _ => True
  | .remove filename => filename ≠ []

/-- The inodes that the call makes. -/
def Makes : DirCall → Block → Prop
  | .create _ size => NewInode size
  | .remove _ => fun _ => False

/-- The call is in its window while this block is the last one it has written. -/
def window : DirCall → Nat
  | .create _ _ => TFS_DIRECTORY_BLOCK
  | .remove _ => TFS_ALLOCATION_BLOCK

end DirCall

/-- The requests served from `s` to `t`, the latest first. -/
def requests (s t : Tfs) : List Request :=
  t.disk.served.take (t.disk.served.length - s.disk.served.length)

theorem Volume.Asked.requests {s t : Tfs} {asked : List Request} (here : Volume.Asked s t asked) :
    requests s t = asked := by
  rw [Fs.requests, here.served, List.length_append, Nat.add_sub_cancel, List.take_left]

/-- The call was refused a request in its window. -/
def DirCall.Cut (c : DirCall) (s t : Tfs) : Prop := lastWrite (requests s t) = some c.window

/-- File `k` is still there. -/
structure FileKept (blocks blocks' : Nat → Block) (k : Nat) : Prop where
  used : Used (blocks' 2) k
  inode : inodeOf blocks' k = inodeOf blocks k
  file : fileOf blocks' k = fileOf blocks k

section Kept

variable {n : Nat} {old blocks : Nat → Block} {asked : List Request} {k : Nat}
  (sound : TfsSound n old) (used : Used (old 2) k)

include sound used

/-- A file whose entry and blocks are kept is kept. -/
theorem TfsSound.fileKept (name : entryName (blocks 2) k = entryName (old 2) k)
    (inode : entryInode (blocks 2) k = entryInode (old 2) k)
    (kept : ∀ b ∈ slotBlocks old k, blocks b = old b) : FileKept old blocks k := by
  have place : inodeOf blocks k = inodeOf old k := by rw [inodeOf, inodeOf, inode]
  have content := kept _ (Image.inode_mem used)
  have bytes := fileBytes_congr (sound.covered k used) content
    fun b mem => kept b (Image.table_mem used mem)
  refine ⟨⟨used.1, inode.symm ▸ used.2⟩, place, ?_⟩
  unfold fileOf
  simp only [name, place, content, bytes]

theorem CreatePoint.fileKept {made : Block → Prop}
    (point : CreatePoint tfsListed made n old blocks asked) : FileKept old blocks k := by
  obtain ⟨saved, ⟨same, -⟩ | ⟨j, name, p, entry, free, -⟩⟩ := point
  · exact sound.fileKept used (by rw [same]) (by rw [same]) fun b => sound.kept saved
  · have ne : k ≠ j := by
      rintro rfl
      exact used.2 free
    exact sound.fileKept used (entry.names k used.1 ne) (entry.inodes k used.1 ne)
      fun b => sound.kept saved

theorem RemovePoint.fileKept {filename : Name} (point : RemovePoint filename old blocks asked)
    (other : entryName (old 2) k ≠ filename) : FileKept old blocks k := by
  rcases point with ⟨rfl, -⟩ | ⟨-, rest, -⟩ | ⟨-, j, named, cleared⟩
  · exact ⟨used, rfl, rfl⟩
  · have directory := rest 2 (by decide)
    refine sound.fileKept used (by rw [directory]) (by rw [directory]) fun b mem => rest b ?_
    have := (sound.owned mem).1
    omega
  · have ne : k ≠ j := by
      rintro rfl
      exact other named
    exact sound.fileKept used (cleared.directory.names k used.1 ne)
      (cleared.directory.inodes k used.1 ne) fun b => sound.kept_cleared cleared

end Kept

theorem TfsIdle.after {s t : Tfs} (idle : TfsIdle s) (lock : t.lock = s.lock)
    (extent : t.capacity = s.capacity) (sound : TfsSound t.totalblocks t.blocks) : TfsIdle t := by
  obtain ⟨total, device⟩ := Prod.mk.injEq .. ▸ extent
  exact
    { free := lock ▸ idle.free
      room := total ▸ idle.room
      fits := total ▸ device ▸ idle.fits
      small := total ▸ idle.small
      sound }

/-- **One call**, whatever requests are refused. -/
theorem DirCall.step {s : Tfs} (idle : TfsIdle s) {c : DirCall} (legal : c.Legal) :
    c.run.Ends s fun _ t =>
      (Ordered tfsListed c.Makes s.blocks t.blocks (requests s t) ↔ ¬c.Cut s t) ∧
        t.capacity = s.capacity ∧ (¬c.Cut s t → TfsIdle t) ∧
        ∀ k, Used (s.blocks 2) k → c ≠ .remove (entryName (s.blocks 2) k) →
          FileKept s.blocks t.blocks k := by
  cases c with
  | create filename size =>
      obtain ⟨r, t, ran, -⟩ := tfsCreate_ends idle filename size
      obtain ⟨asked, here, point⟩ := tfsCreate_point idle.sound idle.small filename size r t ran
      have extent := tfsCreate_capacity filename size s r t ran
      refine ⟨r, t, ran, ?_, extent, fun whole => ?_,
        fun k used _ => point.fileKept idle.sound used⟩
      · rw [DirCall.Cut, here.requests]
        exact point.ordered_iff idle.sound.owning
      · rw [DirCall.Cut, here.requests] at whole
        refine idle.after ?_ extent ?_
        · exact (tfsCreate_balanced filename size s r t ran).trans (add_zero _)
        · rw [show t.totalblocks = s.totalblocks from congrArg Prod.fst extent]
          exact idle.sound.create (fun _ made => made.covers) point whole
  | remove filename =>
      obtain ⟨r, t, ran, -⟩ := tfsRemove_ends idle legal
      obtain ⟨asked, here, point⟩ := tfsRemove_point idle.sound idle.small legal r t ran
      have extent := tfsRemove_capacity filename s r t ran
      refine ⟨r, t, ran, ?_, extent, fun whole => ?_, fun k used other => ?_⟩
      · rw [DirCall.Cut, here.requests]
        exact point.ordered_iff idle.sound
      · rw [DirCall.Cut, here.requests] at whole
        refine idle.after ?_ extent ?_
        · exact (tfsRemove_balanced filename s r t ran).trans (add_zero _)
        · rw [show t.totalblocks = s.totalblocks from congrArg Prod.fst extent]
          rcases point with ⟨same, -⟩ | ⟨last, -⟩ | ⟨-, j, -, cleared⟩
          · rw [same]
            exact idle.sound
          · exact absurd last whole
          · exact idle.sound.remove cleared
      · exact point.fileKept idle.sound used fun same => other (by rw [same])

/-- **Order of the writes.**  Whatever requests are refused, a call returns, and the image that it
leaves is in order exactly if it was not stopped in its window. -/
theorem tfs_write_order {s : Tfs} (idle : TfsIdle s) {c : DirCall} (legal : c.Legal) :
    c.run.Ends s fun _ t =>
      (Ordered tfsListed c.Makes s.blocks t.blocks (requests s t) ↔
        lastWrite (requests s t) ≠ some c.window) :=
  (DirCall.step idle legal).mono fun _ _ result => result.1

/-- The runs in which any requests are refused, but none in a window. -/
def dirSystem : System Tfs DirCall where
  initial := TfsIdle
  step s c :=
    match c.run s with
    | .returned ended =>
        if lastWrite (requests s ended.2) = some c.window then none else some ended.2
    | .stopped _ => none

theorem dirSystem_step {s t : Tfs} {c : DirCall} (idle : TfsIdle s) (legal : c.Legal)
    (taken : dirSystem.step s c = some t) :
    TfsIdle t ∧ t.capacity = s.capacity ∧
      ∀ k, Used (s.blocks 2) k → c ≠ .remove (entryName (s.blocks 2) k) →
        FileKept s.blocks t.blocks k := by
  obtain ⟨r, u, ran, -, extent, whole, kept⟩ := DirCall.step idle legal
  simp only [dirSystem, ran] at taken
  split at taken
  · cases taken
  · rename_i uncut
    cases taken
    exact ⟨whole uncut, extent, kept⟩

/-- **No refusal does damage outside the windows.**  In every run of directory operations in which
any requests are refused, but none in a window, no two files come to share a block, every owned
block stays marked, the volume and its disk keep their sizes, and a file that no call names to be
removed keeps its inode and its bytes. -/
theorem tfs_survives_refusals {s t : Tfs} (idle : TfsIdle s) {cs : List DirCall}
    (legal : ∀ c ∈ cs, c.Legal) (ran : dirSystem.exec s cs = some t) :
    TfsIdle t ∧ t.capacity = s.capacity ∧
      ∀ k, Used (s.blocks 2) k → (∀ c ∈ cs, c ≠ .remove (entryName (s.blocks 2) k)) →
        FileKept s.blocks t.blocks k := by
  induction cs generalizing s with
  | nil =>
      cases ran
      exact ⟨idle, rfl, fun k used _ => ⟨used, rfl, rfl⟩⟩
  | cons c cs ih =>
      rw [System.exec] at ran
      obtain ⟨u, taken, rest⟩ := Option.bind_eq_some_iff.1 ran
      obtain ⟨idle', extent, first⟩ := dirSystem_step idle (legal c List.mem_cons_self) taken
      obtain ⟨last, extent', later⟩ := ih idle' (fun d mem => legal d (List.mem_cons_of_mem _ mem)) rest
      refine ⟨last, extent'.trans extent, fun k used spared => ?_⟩
      have kept := first k used (spared c List.mem_cons_self)
      have name : entryName (u.blocks 2) k = entryName (s.blocks 2) k := congrArg File.name kept.file
      have after := later k kept.used fun d mem => name ▸ spared d (List.mem_cons_of_mem _ mem)
      exact ⟨after.used, after.inode.trans kept.inode, after.file.trans kept.file⟩

/-! ## A disk that refuses a write -/

theorem newLetter_nonzero : (0x6e#8 : Byte) ≠ 0 := by decide

theorem newSize_inside : (-0x80000000 : Int) ≤ 1 ∧ (1 : Int) < 0x80000000 := by decide

/-- A file of one byte. -/
def newFile : DirCall := .create [⟨0x6e#8, newLetter_nonzero⟩] ⟨1, newSize_inside⟩

/-- A new volume on a disk that refuses one request. -/
def refusesOne (k : Nat) : Tfs :=
  { emptyVolume 8 with disk := { (emptyVolume 8).disk with answers := fun n => decide (n ≠ k) } }

theorem idle_refusesOne (k : Nat) : TfsIdle (refusesOne k) where
  free := Int.one_pos
  room := (by decide : 3 ≤ 8)
  fits := Nat.le_refl 8
  small := (by decide : 8 ≤ 4096)
  sound := (empty_emptyVolume (n := 8) (by decide) (by decide)).mounted.image.sound

/-- A call that is no step of the system was refused in its window. -/
theorem dirSystem_step_none {s t : Tfs} {c : DirCall} {r : Int} (ran : c.run s = .returned (r, t)) :
    dirSystem.step s c = none ↔ lastWrite (requests s t) = some c.window := by
  simp only [dirSystem, ran, ite_eq_left_iff, reduceCtorEq, imp_false, not_not]

/-- The fourth request writes the directory, and the fifth one the inode: a file that is refused
the fourth leaves the image in order, and one that is refused the fifth does not. -/
theorem tfs_write_order_refusesOne :
    (newFile.run.Ends (refusesOne 3) fun _ t =>
      Ordered tfsListed newFile.Makes (refusesOne 3).blocks t.blocks (requests (refusesOne 3) t)) ∧
    newFile.run.Ends (refusesOne 4) fun _ t =>
      ¬Ordered tfsListed newFile.Makes (refusesOne 4).blocks t.blocks (requests (refusesOne 4) t) := by
  constructor
  · have outside : (dirSystem.step (refusesOne 3) newFile).isSome = true := by decide +kernel
    obtain ⟨r, t, ran, order⟩ := tfs_write_order (idle_refusesOne 3) (c := newFile) trivial
    refine ⟨r, t, ran, order.2 fun cut => ?_⟩
    rw [(dirSystem_step_none ran).2 cut] at outside
    cases outside
  · have inside : (dirSystem.step (refusesOne 4) newFile).isNone = true := by decide +kernel
    obtain ⟨r, t, ran, order⟩ := tfs_write_order (idle_refusesOne 4) (c := newFile) trivial
    exact ⟨r, t, ran, fun ordered =>
      order.1 ordered ((dirSystem_step_none ran).1 (Option.isNone_iff_eq_none.1 inside))⟩

/-- A second file is refused the write of the directory: it is not made, and the first one is
kept. -/
theorem tfs_survives_refusals_refusesOne :
    ∃ s t, dirSystem.exec (refusesOne 9) [newFile] = some s ∧ Used (s.blocks 2) 24 ∧
      dirSystem.exec s [.create letter ⟨1, newSize_inside⟩] = some t ∧
      TfsIdle t ∧ t.capacity = s.capacity ∧ FileKept s.blocks t.blocks 24 ∧
      ∀ k, Used (t.blocks 2) k → k = 24 := by
  have ran : ((dirSystem.exec (refusesOne 9) [newFile]).bind fun s =>
      (dirSystem.exec s [.create letter ⟨1, newSize_inside⟩]).map fun t =>
        (s.blocks 2 120, (List.range 24).all fun k => entryInode (t.blocks 2) k == 0)) =
          some (3, true) := by
    decide +kernel
  obtain ⟨s, first, rest⟩ := Option.bind_eq_some_iff.1 ran
  obtain ⟨t, second, parts⟩ := Option.map_eq_some_iff.1 rest
  simp only [Prod.mk.injEq, List.all_eq_true, List.mem_range, beq_iff_eq] at parts
  obtain ⟨entry, others⟩ := parts
  have used : Used (s.blocks 2) 24 := ⟨by decide, by rw [entryInode, entry]; decide⟩
  have legal : ∀ c ∈ [newFile], c.Legal := by
    intro c mem
    rw [List.mem_singleton.1 mem]
    trivial
  have idle := (tfs_survives_refusals (idle_refusesOne 9) legal first).1
  obtain ⟨idle', extent, kept⟩ := tfs_survives_refusals idle (fun c mem => by
    rw [List.mem_singleton.1 mem]
    trivial) second
  refine ⟨s, t, first, used, second, idle', extent, kept 24 used fun c mem => ?_, ?_⟩
  · rw [List.mem_singleton.1 mem]
    intro same
    cases same
  · rintro k ⟨inside, named⟩
    by_contra other
    exact named (others k (Nat.lt_of_le_of_ne (Nat.le_of_lt_succ inside) other))

end Buenos.Fs
