/-
# Fs.TfsData -- reading and writing TFS files

The data half of the driver on a consistent image whose requests are all served.  A
transfer of `m` bytes at offset `off` goes from block `off / 512` of the file to block
`(off + m - 1) / 512`; before block `b` of it, `done off m b` bytes have been moved.  The
driver treats the first, the inner and the last block by separate code.

The two loops are read by what they have moved so far: `tfsReadLoop_ready` has that part of
the file in the caller's buffer, and `Overlaid` says that it is what the blocks on the disk
differ in.  `tfsRead_cases` and `tfsWrite_cases` are the results for a whole call.
-/
import Buenos.Fs.TfsAlloc

namespace Buenos.Fs

open Buenos.Lib Buenos.Theory

set_option autoImplicit false

/-! ## Ranges of a file -/

/-- The `m` bytes at offset `off` of what has byte `content q` at offset `q`. -/
def extent (content : Nat → Byte) (off m : Nat) : List Byte :=
  (List.range m).map fun k => content (off + k)

theorem extent_append (content : Nat → Byte) (off m k : Nat) :
    extent content off m ++ extent content (off + m) k = extent content off (m + k) := by
  unfold extent
  rw [List.range_add, List.map_append, List.map_map]
  congr 1
  apply List.map_congr_left
  intro a _
  simp [Nat.add_assoc]

/-- A part of a file that is `size` bytes long. -/
theorem extent_drop_take (content : Nat → Byte) {off m size : Nat} (within : off + m ≤ size) :
    (((List.range size).map content).drop off).take m = extent content off m := by
  apply List.ext_getElem
  · simp [extent]
    omega
  · intro k _ _
    simp [extent]

/-- The `m` bytes at offset `off` of the file with inode block `i`. -/
def fileRange (blocks : Nat → Block) (i off m : Nat) : List Byte :=
  (List.range m).map fun k => fileByte blocks i (off + k)

theorem fileRange_append (blocks : Nat → Block) (i off m k : Nat) :
    fileRange blocks i off m ++ fileRange blocks i (off + m) k = fileRange blocks i off (m + k) :=
  extent_append (fileByte blocks i) off m k

theorem fileBytes_drop_take (blocks : Nat → Block) (i : Nat) {off m : Nat}
    (within : off + m ≤ (fileSize (blocks i)).toNat) :
    ((fileBytes blocks i).drop off).take m = fileRange blocks i off m :=
  extent_drop_take (fileByte blocks i) within

/-- A byte of block `b` of the file. -/
theorem fileByte_place (blocks : Nat → Block) (i b : Nat) {p : Nat} (inside : p < 512) :
    fileByte blocks i (512 * b + p) = (blocks (blocks i (directWord b)).toNat).byte p := by
  unfold fileByte
  rw [show (512 * b + p) / 512 = b by omega, show (512 * b + p) % 512 = p by omega]

/-- Bytes moved before block `b`. -/
def done (off m b : Nat) : Nat := min (512 * b - off) m

/-! ## Blocks with new bytes -/

/-- Of a file that has its block `b` at `place b`, the first `k` blocks hold `m` bytes of `buffer`
at offset `off`, and otherwise what they held in `blocks`. -/
def Spliced (blocks blocks' : Nat → Block) (place : Nat → Nat) (k off m : Nat)
    (buffer : Nat → Byte) : Prop :=
  ∀ b < k, ∀ p < 512, (blocks' (place b)).byte p =
    if off ≤ 512 * b + p ∧ 512 * b + p < off + m then buffer (512 * b + p - off)
    else (blocks (place b)).byte p

namespace Spliced

variable {blocks blocks' : Nat → Block} {place : Nat → Nat} {k off m b : Nat}
  {buffer : Nat → Byte}

theorem nothing : Spliced blocks blocks place k off 0 buffer :=
  fun _ _ _ _ => by rw [if_neg (by omega)]

/-- The next block is written. -/
theorem put (distinct : ∀ c < k, place c = place b → c = b) (started : off / 512 ≤ b)
    (spliced : Spliced blocks blocks' place k off (done off m b) buffer) {content : Block}
    (bytes : ∀ p < 512, content.byte p =
      if off ≤ 512 * b + p ∧ 512 * b + p < off + done off m (b + 1) then buffer (512 * b + p - off)
      else (blocks (place b)).byte p) :
    Spliced blocks (Function.update blocks' (place b) content) place k off (done off m (b + 1))
      buffer := by
  intro c less p inside
  by_cases here : c = b
  · rw [here, Function.update_self]
    exact bytes p inside
  · rw [Function.update_of_ne fun same => here (distinct c less same), spliced c less p inside]
    have moved : off ≤ 512 * c + p ∧ 512 * c + p < off + done off m b ↔
        off ≤ 512 * c + p ∧ 512 * c + p < off + done off m (b + 1) := by
      unfold done
      omega
    simp only [moved]

/-- A block that has not been reached yet is as it was, from the start of the transfer on. -/
theorem ahead (spliced : Spliced blocks blocks' place k off (done off m b) buffer) (less : b < k)
    {p : Nat} (inside : p < 512) : (blocks' (place b)).byte p = (blocks (place b)).byte p := by
  rw [spliced b less p inside, if_neg (by unfold done; omega)]

end Spliced

section Fills

variable {old bat : Block} {off m b c : Nat} (buffer : Nat → Byte)

/-- What a block holds once `c` bytes of the buffer are in it. -/
theorem byte_fills (started : off + done off m b = 512 * b)
    (next : done off m (b + 1) = done off m b + c)
    (rest : ∀ p < 512, c ≤ p → bat.byte p = old.byte p) :
    ∀ p < 512, (memcopy c bat 0 fun k => buffer (done off m b + k)).byte p =
      if off ≤ 512 * b + p ∧ 512 * b + p < off + done off m (b + 1) then buffer (512 * b + p - off)
      else old.byte p := by
  intro p inside
  rw [byte_memcopy]
  by_cases new : p < c
  · rw [if_pos (by omega), if_pos (by omega)]
    congr 1
    omega
  · rw [if_neg (by omega), if_neg (by omega), rest p inside (by omega)]

/-- The first block, which the transfer may start in the middle of. -/
theorem byte_fills_first (rest : ∀ p < 512, ¬ (off % 512 ≤ p ∧
      p < off % 512 + done off m (off / 512 + 1)) → bat.byte p = old.byte p) :
    ∀ p < 512, (memcopy (done off m (off / 512 + 1)) bat (off % 512) buffer).byte p =
      if off ≤ 512 * (off / 512) + p ∧ 512 * (off / 512) + p < off + done off m (off / 512 + 1) then
        buffer (512 * (off / 512) + p - off)
      else old.byte p := by
  intro p inside
  rw [byte_memcopy]
  by_cases new : off % 512 ≤ p ∧ p < off % 512 + done off m (off / 512 + 1)
  · rw [if_pos new, if_pos (by omega)]
    congr 1
    omega
  · rw [if_neg new, if_neg (by omega), rest p inside new]

end Fills

namespace Volume

variable {s t u : Tfs} {blocks : Nat → Block} {i off m : Nat}

theorem tfsLoad_ready (ready : s.Ready) {k : Nat}
    (inside : (s.buffer .inode (directWord k)).toNat < s.totalblocks) :
    tfsLoad k s = .returned (true, s.didRead (s.buffer .inode (directWord k)).toNat .bat) :=
  readBlock_ready ready .bat inside

/-! ## Reading -/

/-- The volume while the file with inode block `i` is read or written: the inode is in its
buffer, and the blocks of the file up to block `last` are on the volume. -/
structure Opened (s : Tfs) (ino : Block) (last : Nat) : Prop where
  ready : s.Ready
  inode : s.buffer .inode = ino
  inside : ∀ k ≤ last, (ino (directWord k)).toNat < s.totalblocks

theorem Opened.same {ino : Block} {last : Nat} (opened : Opened s ino last)
    (same : Volume.Same s t) (inode : t.buffer .inode = s.buffer .inode) : Opened t ino last where
  ready := opened.ready.same same
  inode := inode.trans opened.inode
  inside := by
    rw [same.totalblocks]
    exact opened.inside

/-- Block `b` of the file is read into the bitmap buffer. -/
theorem Opened.load {ino : Block} {last b : Nat} (opened : Opened s ino last) (within : b ≤ last) :
    ∃ t, tfsLoad b s = .returned (true, t) ∧ Opened t ino last ∧ Unchanged s t ∧
      t.buffer .bat = s.blocks (ino (directWord b)).toNat := by
  obtain ⟨ready, rfl, inside⟩ := opened
  have same := Same.didRead (s := s) (s.buffer .inode (directWord b)).toNat TfsBuffer.bat
  exact ⟨_, tfsLoad_ready ready (inside b within),
    Opened.same ⟨ready, rfl, inside⟩ same (by simp), ⟨same, rfl⟩, by simp⟩

/-- **The loop of `tfs_read`** goes on to the end of the transfer. -/
theorem tfsReadLoop_ready (positive : 0 < m) (n : Nat) :
    ∀ (b : Nat) (s : Tfs), Opened s (blocks i) ((off + m - 1) / 512) → s.blocks = blocks →
      b + n = (off + m - 1) / 512 + 1 → off / 512 < b →
      ∃ t, tfsReadLoop ((off + m - 1) / 512 : Nat) m n b (done off m b)
          (fileRange blocks i off (done off m b)) s =
            .returned (some ((m : Int), fileRange blocks i off m), t) ∧ Unchanged s t := by
  induction n with
  | zero =>
      intro b s _ _ last _
      have all : done off m b = m := by
        unfold done
        omega
      refine ⟨s, ?_, .refl s, rfl⟩
      rw [all]
      rfl
  | succ n ih =>
      intro b s opened disk last first
      obtain ⟨t, ran, opened', kept, bat⟩ := opened.load (b := b) (by omega)
      have bytes : ∀ k < 512, (t.buffer .bat).byte k = fileByte blocks i (512 * b + k) := by
        intro k inside
        rw [bat, disk, fileByte_place blocks i b inside]
      have place : off + done off m b = 512 * b := by
        unfold done
        omega
      have moved : ∀ c ≤ 512, (List.range c).map (fun k => (t.buffer .bat).byte k) =
          fileRange blocks i (off + done off m b) c := by
        intro c small
        apply List.map_congr_left
        intro k mem
        rw [bytes k (by have := List.mem_range.1 mem; omega), place]
      have next : done off m b + (done off m (b + 1) - done off m b) = done off m (b + 1) := by
        unfold done
        omega
      obtain ⟨u, ran', kept'⟩ := ih (b + 1) t opened' (kept.disk.trans disk) (by omega) (by omega)
      rw [← next, ← fileRange_append, next] at ran'
      refine ⟨u, ?_, kept.same.trans kept'.same, kept'.disk.trans kept.disk⟩
      rw [tfsReadLoop, Prog.bind_of_returned ran]
      simp only [if_true, Prog.bind_gets_apply]
      by_cases final : b = (off + m - 1) / 512
      · have all : done off m (b + 1) = m := by
          unfold done
          omega
        have rest : ((m : Int) - (done off m b : Int)).toNat = m - done off m b := by omega
        rw [if_pos (by rw [final]), rest, moved _ (by unfold done; omega)]
        rw [all] at ran'
        exact ran'
      · have block : done off m (b + 1) = done off m b + 512 := by
          unfold done
          omega
        rw [if_neg (by omega)]
        unfold TFS_BLOCK_SIZE
        rw [moved 512 (Nat.le_refl _)]
        rw [block, Nat.add_sub_cancel_left] at ran'
        exact ran'

section Arithmetic

variable (short : off + m < 0x80000000)

theorem firstBlock (off : Nat) : ((off : Int).tdiv (TFS_BLOCK_SIZE : Int)).toNat = off / 512 := by
  change ((off : Int).tdiv 512).toNat = off / 512
  rw [Int.tdiv_eq_ediv_of_nonneg (by omega)]
  omega

theorem firstPos (off : Nat) : ((off : Int) % (TFS_BLOCK_SIZE : Int)).toNat = off % 512 := by
  change ((off : Int) % 512).toNat = off % 512
  omega

theorem firstBytes (off m : Nat) :
    min ((TFS_BLOCK_SIZE : Int) - (off % 512 : Nat)) m = done off m (off / 512 + 1) := by
  change min ((512 : Int) - (off % 512 : Nat)) m = _
  unfold done
  omega

theorem rounds (off m : Nat) : (((off + m - 1) / 512 : Nat) - (off / 512 : Nat) : Int).toNat =
    (off + m - 1) / 512 - off / 512 := by omega

include short

theorem lastBlock (positive : 0 < m) :
    (toInt32 ((off : Int) + m - 1)).tdiv (TFS_BLOCK_SIZE : Int) = ((off + m - 1) / 512 : Nat) := by
  change (toInt32 ((off : Int) + m - 1)).tdiv 512 = _
  rw [toInt32_eq (by omega) (by omega), Int.tdiv_eq_ediv_of_nonneg (by omega)]
  omega

end Arithmetic

/-- `tfs_read` within the file in the inode buffer. -/
theorem tfsReadBlocks_ready (positive : 0 < m) (short : off + m < 0x80000000)
    (opened : Opened s (blocks i) ((off + m - 1) / 512)) (disk : s.blocks = blocks) :
    ∃ t, tfsReadBlocks m off s =
        .returned (((m : Int), fileRange blocks i off m), { t with lock := t.lock + 1 }) ∧
      Unchanged s t := by
  obtain ⟨t, ran, opened', kept, bat⟩ := opened.load (b := off / 512) (by omega)
  have bytes : (List.range (done off m (off / 512 + 1))).map
      (fun k => (t.buffer .bat).byte (off % 512 + k)) =
        fileRange blocks i off (done off m (off / 512 + 1)) := by
    apply List.map_congr_left
    intro k mem
    have inside : off % 512 + k < 512 := by
      have := List.mem_range.1 mem
      unfold done at this
      omega
    rw [bat, disk, ← fileByte_place blocks i (off / 512) inside]
    congr 1
    omega
  obtain ⟨u, ran', kept'⟩ := @tfsReadLoop_ready blocks i off m positive
    ((off + m - 1) / 512 - off / 512) (off / 512 + 1) t opened' (kept.disk.trans disk) (by omega)
    (by omega)
  refine ⟨u, ?_, kept.same.trans kept'.same, kept'.disk.trans kept.disk⟩
  simp only [tfsReadBlocks, firstBlock, lastBlock short positive, firstPos, firstBytes]
  rw [Prog.bind_of_returned ran]
  simp only [if_true, Prog.bind_gets_apply, Int.toNat_natCast, bytes, rounds]
  rw [Prog.bind_of_returned ran']
  rfl

/-! ## Writing -/

/-- On the disk the file with inode block `i` has `m` bytes of `buffer` at offset `off`;
everything else is as it was in `blocks`. -/
structure Overlaid (blocks blocks' : Nat → Block) (i off m : Nat) (buffer : Nat → Byte) :
    Prop where
  bytes : ∀ k < (tableBlocks (blocks i)).length, ∀ p < 512,
    (blocks' (blocks i (directWord k)).toNat).byte p =
      if off ≤ 512 * k + p ∧ 512 * k + p < off + m then buffer (512 * k + p - off)
      else (blocks (blocks i (directWord k)).toNat).byte p
  kept : ∀ x, x ∉ tableBlocks (blocks i) → blocks' x = blocks x

section Overlay

variable {blocks' : Nat → Block} {buffer : Nat → Byte} {b : Nat}

theorem Overlaid.nothing : Overlaid blocks blocks i off 0 buffer where
  bytes := fun k _ p _ => by rw [if_neg (by omega)]
  kept := fun _ _ => rfl

/-- Block `b` of the file is written. -/
theorem Overlaid.put (nodup : (tableBlocks (blocks i)).Nodup)
    (listed : b < (tableBlocks (blocks i)).length) (started : off / 512 ≤ b)
    (overlaid : Overlaid blocks blocks' i off (done off m b) buffer) {content : Block}
    (bytes : ∀ p < 512, content.byte p =
      if off ≤ 512 * b + p ∧ 512 * b + p < off + done off m (b + 1) then buffer (512 * b + p - off)
      else (blocks (blocks i (directWord b)).toNat).byte p) :
    Overlaid blocks (Function.update blocks' (blocks i (directWord b)).toNat content) i off
      (done off m (b + 1)) buffer where
  bytes := by
    have spliced : Spliced blocks blocks' (fun k => (blocks i (directWord k)).toNat) _ off _ buffer :=
      overlaid.bytes
    refine spliced.put (fun k less same => ?_) started bytes
    rw [← tableBlocks_getElem less, ← tableBlocks_getElem listed] at same
    exact (nodup.getElem_inj_iff).1 same
  kept := by
    intro x apart
    have other : x ≠ (blocks i (directWord b)).toNat := fun same =>
      apart (same ▸ tableBlocks_mem listed)
    rw [Function.update_of_ne other]
    exact overlaid.kept x apart

/-- A block that has not been reached yet is as it was. -/
theorem Overlaid.ahead (overlaid : Overlaid blocks blocks' i off (done off m b) buffer)
    (listed : b < (tableBlocks (blocks i)).length) {p : Nat} (inside : p < 512) :
    (blocks' (blocks i (directWord b)).toNat).byte p =
      (blocks (blocks i (directWord b)).toNat).byte p := by
  have spliced : Spliced blocks blocks' (fun k => (blocks i (directWord k)).toNat) _ off _ buffer :=
    overlaid.bytes
  exact spliced.ahead listed inside

end Overlay

/-- The bitmap buffer, with `content` in it, is written to block `b` of the file. -/
theorem Opened.save {ino : Block} {last b : Nat} (opened : Opened s ino last) (within : b ≤ last)
    (content : Block) :
    ∃ t, tfsSave b (s.setBuffer .bat content) = .returned (true, t) ∧ Opened t ino last ∧
      Volume.Same s t ∧
      t.blocks = Function.update s.blocks (ino (directWord b)).toNat content := by
  obtain ⟨ready, rfl, inside⟩ := opened
  have same : Volume.Same s (s.setBuffer .bat content) := .setBuffer _ _
  have written := tfsSave_ready (ready.same same) (k := b) (by simpa using inside b within)
  simp only [setBuffer_buffer] at written
  refine ⟨_, written, ?_, same.trans (.didWrite _ _), ?_⟩
  · exact Opened.same ⟨ready, rfl, inside⟩ (same.trans (.didWrite _ _)) (by simp)
  · simp

/-- A block that is not to be overwritten as a whole is read first. -/
theorem Opened.loadPart {ino : Block} {last b : Nat} (opened : Opened s ino last)
    (within : b ≤ last) (part : Prop) [Decidable part] :
    ∃ t, (∀ {α : Type} (f : Bool → Prog Tfs α),
        (if part then tfsLoad b >>= f else pure true >>= f : Prog Tfs α) s = f true t) ∧
      Opened t ino last ∧ Unchanged s t ∧
      (part → t.buffer .bat = s.blocks (ino (directWord b)).toNat) := by
  by_cases shorter : part
  · obtain ⟨t, ran, opened', kept, bat⟩ := opened.load within
    refine ⟨t, fun f => ?_, opened', kept, fun _ => bat⟩
    rw [if_pos shorter, Prog.bind_of_returned ran]
  · refine ⟨s, fun f => ?_, opened, ⟨.refl s, rfl⟩, fun h => absurd h shorter⟩
    rw [if_neg shorter, Prog.bind_pure_apply]

/-- **The loop of `tfs_write`** goes on to the end of the transfer. -/
theorem tfsWriteLoop_ready {buffer : Nat → Byte} (positive : 0 < m)
    (nodup : (tableBlocks (blocks i)).Nodup)
    (listed : (off + m - 1) / 512 < (tableBlocks (blocks i)).length) (n : Nat) :
    ∀ (b : Nat) (s : Tfs), Opened s (blocks i) ((off + m - 1) / 512) →
      Overlaid blocks s.blocks i off (done off m b) buffer →
      b + n = (off + m - 1) / 512 + 1 → off / 512 < b →
      ∃ t, tfsWriteLoop ((off + m - 1) / 512 : Nat) buffer m n b (done off m b) s =
          .returned (some (m : Int), t) ∧ Volume.Same s t ∧
        Overlaid blocks t.blocks i off m buffer := by
  induction n with
  | zero =>
      intro b s _ overlaid last _
      have all : done off m b = m := by
        unfold done
        omega
      rw [all] at overlaid ⊢
      exact ⟨s, rfl, .refl s, overlaid⟩
  | succ n ih =>
      intro b s opened overlaid last first
      have within : b < (tableBlocks (blocks i)).length := by omega
      have place : off + done off m b = 512 * b := by
        unfold done
        omega
      rw [tfsWriteLoop]
      by_cases final : b = (off + m - 1) / 512
      · have all : done off m (b + 1) = m := by
          unfold done
          omega
        have rest : ((m : Int) - (done off m b : Int)).toNat = m - done off m b := by omega
        obtain ⟨t, ran, opened', kept, old⟩ := opened.loadPart (b := b) (by omega)
          ((m : Int) - (done off m b : Int) < (TFS_BLOCK_SIZE : Int))
        obtain ⟨u, ran', opened'', same, disk⟩ := opened'.save (b := b) (by omega)
          (memcopy (m - done off m b) (t.buffer .bat) 0 fun k => buffer (done off m b + k))
        have written : Overlaid blocks u.blocks i off (done off m (b + 1)) buffer := by
          rw [disk, kept.disk]
          refine overlaid.put nodup within (by omega)
            (byte_fills buffer place (by omega) fun p inside past => ?_)
          have shorter : (m : Int) - (done off m b : Int) < (TFS_BLOCK_SIZE : Int) := by
            unfold TFS_BLOCK_SIZE
            omega
          rw [old shorter]
          exact overlaid.ahead within inside
        obtain ⟨v, ran'', same', overlaid'⟩ := ih (b + 1) u opened'' written (by omega) (by omega)
        rw [all] at ran''
        refine ⟨v, ?_, (kept.same.trans same).trans same', overlaid'⟩
        rw [if_pos (by rw [final]), ran]
        simp only [if_true, Prog.bind_modify_apply, rest, Int.toNat_natCast]
        rw [Prog.bind_of_returned ran']
        exact ran''
      · have next : done off m (b + 1) = done off m b + 512 := by
          unfold done
          omega
        obtain ⟨u, ran, opened', same, disk⟩ := opened.save (b := b) (by omega)
          (memcopy 512 (s.buffer .bat) 0 fun k => buffer (done off m b + k))
        have written : Overlaid blocks u.blocks i off (done off m (b + 1)) buffer := by
          rw [disk]
          exact overlaid.put nodup within (by omega)
            (byte_fills buffer place next fun p inside past => by omega)
        obtain ⟨v, ran', same', overlaid'⟩ := ih (b + 1) u opened' written (by omega) (by omega)
        refine ⟨v, ?_, same.trans same', overlaid'⟩
        rw [if_neg (by omega)]
        simp only [Prog.bind_modify_apply, Int.toNat_natCast, TFS_BLOCK_SIZE]
        rw [Prog.bind_of_returned ran]
        rw [next] at ran'
        exact ran'

/-- `tfs_write` within the file in the inode buffer. -/
theorem tfsWriteBlocks_ready (buffer : Nat → Byte) (positive : 0 < m)
    (short : off + m < 0x80000000) (nodup : (tableBlocks (blocks i)).Nodup)
    (listed : (off + m - 1) / 512 < (tableBlocks (blocks i)).length)
    (opened : Opened s (blocks i) ((off + m - 1) / 512)) (disk : s.blocks = blocks) :
    ∃ t, tfsWriteBlocks buffer m off s =
        .returned ((m : Int), { t with lock := t.lock + 1 }) ∧ Volume.Same s t ∧
      Overlaid blocks t.blocks i off m buffer := by
  obtain ⟨t, ran, opened', kept, old⟩ := opened.loadPart (b := off / 512) (by omega)
    ((done off m (off / 512 + 1) : Int) < (TFS_BLOCK_SIZE : Int))
  obtain ⟨u, ran', opened'', same, after⟩ := opened'.save (b := off / 512) (by omega)
    (memcopy (done off m (off / 512 + 1)) (t.buffer .bat) (off % 512) buffer)
  have nothing : done off m (off / 512) = 0 := by
    unfold done
    omega
  have written : Overlaid blocks u.blocks i off (done off m (off / 512 + 1)) buffer := by
    rw [after, kept.disk, disk]
    apply Overlaid.put nodup (by omega) (Nat.le_refl _)
    · rw [nothing]
      exact .nothing
    · refine byte_fills_first buffer fun p inside outside => ?_
      have shorter : (done off m (off / 512 + 1) : Int) < (TFS_BLOCK_SIZE : Int) := by
        change (done off m (off / 512 + 1) : Int) < 512
        unfold done at outside ⊢
        omega
      rw [old shorter, disk]
  obtain ⟨v, ran'', same', overlaid⟩ := tfsWriteLoop_ready positive nodup listed
    ((off + m - 1) / 512 - off / 512) (off / 512 + 1) u opened'' written (by omega) (by omega)
  refine ⟨v, ?_, (kept.same.trans same).trans same', overlaid⟩
  simp only [tfsWriteBlocks, firstBlock, lastBlock short positive, firstPos, firstBytes]
  rw [ran]
  simp only [if_true, Prog.bind_modify_apply, Int.toNat_natCast, rounds]
  rw [Prog.bind_of_returned ran']
  simp only [if_true]
  rw [Prog.bind_of_returned ran'']
  rfl

end Volume

/-- Block `i` reads as the inode of a file. -/
structure FileAt (n : Nat) (blocks : Nat → Block) (i : Nat) : Prop where
  inode : 2 ≤ i ∧ i < n
  listed : ∀ b ∈ tableBlocks (blocks i), b < n
  nodup : (tableBlocks (blocks i)).Nodup
  covered : blocksOf (fileSize (blocks i)).toNat ≤ (tableBlocks (blocks i)).length

theorem Image.fileAt {n : Nat} {blocks : Nat → Block} {j : Nat} (image : Image n blocks)
    (used : Used (blocks 2) j) : FileAt n blocks (inodeOf blocks j) where
  inode := by
    have := image.inode_inside used
    omega
  listed := fun _ mem => (image.owned (Image.table_mem used mem)).2
  nodup := image.table_nodup used
  covered := image.covered j used

/-- The largest file has 65024 bytes. -/
theorem FileAt.size_le {n : Nat} {blocks : Nat → Block} {i : Nat} (file : FileAt n blocks i) :
    fileSize (blocks i) ≤ 65024 := by
  have covered := file.covered
  have most := tableBlocks_length_le (blocks i)
  unfold blocksOf at covered
  omega

section Calls

variable {s : Tfs} (ready : s.Ready) (free : 0 < s.lock) {i : Nat}
  (file : FileAt s.totalblocks s.blocks i) {fileid : CInt} (handle : fileid.val = i)

include ready file

/-- The file's inode in its buffer. -/
theorem opened_file {last : Nat} (within : last < blocksOf (fileSize (s.blocks i)).toNat) :
    Volume.Opened (s.locked.didRead i TfsBuffer.inode) (s.blocks i) last where
  ready := ready.locked.same (.didRead _ _)
  inode := by simp
  inside := by
    intro k le
    have place : k < (tableBlocks (s.blocks i)).length := by
      have := file.covered
      omega
    exact file.listed _ (tableBlocks_mem place)

include handle

/-- A call on the file finds its inode. -/
theorem load_file :
    ¬ (fileid.val < 2 ∨ (s.locked.totalblocks : Int) < fileid.val) ∧
      readBlock (BitVec.ofInt 32 fileid.val) TfsBuffer.inode s.locked =
        .returned (true, s.locked.didRead i TfsBuffer.inode) := by
  obtain ⟨low, high⟩ := file.inode
  have small := ready.small
  have number : (BitVec.ofInt 32 fileid.val).toNat = i := by
    rw [BitVec.toNat_ofInt, handle]
    omega
  refine ⟨by rw [Volume.locked_totalblocks]; omega, ?_⟩
  rw [Volume.readBlock_ready ready.locked .inode (by rw [number]; exact high), number]

include free

/-- **`tfs_read`** gives the bytes of the file. -/
theorem tfsRead_cases (n off : CInt) (nonneg : 0 ≤ n.val) :
    ∃ t, tfsRead fileid n off s = .returned
        (if 0 ≤ off.val ∧ off.val ≤ fileSize (s.blocks i) then
          (min n.val (fileSize (s.blocks i) - off.val),
            ((fileBytes s.blocks i).drop off.val.toNat).take n.val.toNat)
        else (VFS_ERROR, []), t) ∧ Volume.Unchanged s t := by
  obtain ⟨legal, loaded⟩ := load_file ready file handle
  have same : Volume.Same s.locked (s.locked.didRead i TfsBuffer.inode) :=
    .didRead _ _
  have unchanged : ∀ t : Tfs, Volume.Same s.locked t → t.blocks = s.blocks →
      Volume.Unchanged s { t with lock := t.lock + 1 } := fun t same disk =>
    Volume.Unchanged.unlock ⟨same, disk⟩
  have filesize : toInt32 ((s.locked.didRead i TfsBuffer.inode).buffer .inode 0).toNat =
      fileSize (s.blocks i) := by
    simp [fileSize]
  rw [tfsRead, Prog.bind_of_returned (Volume.lockP_free free), Prog.bind_gets_apply,
    if_neg legal, Prog.bind_of_returned loaded]
  have length : (fileBytes s.blocks i).length =
      (fileSize (s.blocks i)).toNat := by simp [fileBytes]
  have slice : ∀ o m, o + m ≤ (fileSize (s.blocks i)).toNat →
      ((fileBytes s.blocks i).drop o).take m =
        fileRange s.blocks i o m := fun o m => fileBytes_drop_take _ _
  have opened : ∀ last, last < blocksOf (fileSize (s.blocks i)).toNat → _ :=
    fun last => opened_file ready file
  have size_le := file.size_le
  simp only [if_true, Prog.bind_gets_apply, filesize]
  clear filesize
  generalize fileSize (s.blocks i) = size at *
  generalize n.val = n at nonneg ⊢
  generalize off.val = off
  by_cases outside : off < 0 ∨ size < off
  · rw [if_pos outside, if_neg (by omega)]
    exact ⟨_, rfl, unchanged _ same rfl⟩
  · have within : 0 ≤ off ∧ off ≤ size := by omega
    rw [if_neg outside, if_pos within]
    obtain ⟨o, rfl⟩ := Int.eq_ofNat_of_zero_le within.1
    obtain ⟨m, transfer⟩ := Int.eq_ofNat_of_zero_le (a := min n (size - o)) (by omega)
    have taken : ((fileBytes s.blocks i).drop o).take n.toNat =
        fileRange s.blocks i o m := by
      rw [← slice o m (by omega), List.take_eq_take_iff, List.length_drop, length]
      omega
    rw [transfer, Int.toNat_natCast, taken]
    by_cases nothing : (m : Int) = 0
    · obtain rfl : m = 0 := by omega
      rw [if_pos nothing]
      exact ⟨_, rfl, unchanged _ same rfl⟩
    · rw [if_neg nothing]
      have opened := opened ((o + m - 1) / 512) (by unfold blocksOf; omega)
      obtain ⟨t, ran, kept⟩ := Volume.tfsReadBlocks_ready (by omega) (by omega) opened rfl
      exact ⟨_, ran, unchanged _ (same.trans kept.same) kept.disk⟩

/-- The bytes that a transfer of `n` bytes at `off` moves in a file of `size` bytes. -/
def transfer (size n off : Int) : Nat := if 0 ≤ off ∧ off ≤ size then (min n (size - off)).toNat else 0

/-- **`tfs_write`** overwrites a part of the file. -/
theorem tfsWrite_cases (buffer : Nat → Byte) (n off : CInt) (nonneg : 0 ≤ n.val) :
    ∃ t, tfsWrite fileid buffer n off s = .returned
        (if 0 ≤ off.val ∧ off.val ≤ fileSize (s.blocks i) then
          min n.val (fileSize (s.blocks i) - off.val)
        else VFS_ERROR, t) ∧ Volume.Same s t ∧
      Volume.Overlaid s.blocks t.blocks i off.val.toNat
        (transfer (fileSize (s.blocks i)) n.val off.val) buffer := by
  obtain ⟨legal, loaded⟩ := load_file ready file handle
  have same : Volume.Same s.locked (s.locked.didRead i TfsBuffer.inode) :=
    .didRead _ _
  have filesize : toInt32 ((s.locked.didRead i TfsBuffer.inode).buffer .inode 0).toNat =
      fileSize (s.blocks i) := by
    simp [fileSize]
  rw [tfsWrite, Prog.bind_of_returned (Volume.lockP_free free), Prog.bind_gets_apply,
    if_neg legal, Prog.bind_of_returned loaded]
  have opened : ∀ last, last < blocksOf (fileSize (s.blocks i)).toNat → _ :=
    fun last => opened_file ready file
  have covered := file.covered
  have size_le := file.size_le
  simp only [if_true, Prog.bind_gets_apply, filesize, transfer]
  clear filesize
  generalize fileSize (s.blocks i) = size at *
  generalize n.val = n at nonneg ⊢
  generalize off.val = off
  by_cases outside : off < 0 ∨ size < off
  · rw [if_pos outside, if_neg (by omega), if_neg (by omega)]
    exact ⟨_, rfl, same.unlock, .nothing⟩
  · have within : 0 ≤ off ∧ off ≤ size := by omega
    rw [if_neg outside, if_pos within, if_pos within]
    obtain ⟨o, rfl⟩ := Int.eq_ofNat_of_zero_le within.1
    obtain ⟨m, moved⟩ := Int.eq_ofNat_of_zero_le (a := min n (size - o)) (by omega)
    rw [moved, Int.toNat_natCast, Int.toNat_natCast]
    by_cases nothing : (m : Int) = 0
    · obtain rfl : m = 0 := by omega
      rw [if_pos nothing]
      exact ⟨_, rfl, same.unlock, .nothing⟩
    · rw [if_neg nothing]
      obtain ⟨t, ran, kept, overlaid⟩ := Volume.tfsWriteBlocks_ready buffer (by omega)
        (by omega) file.nodup (by unfold blocksOf at covered; omega)
        (opened ((o + m - 1) / 512) (by unfold blocksOf; omega)) rfl
      exact ⟨_, ran, (same.trans kept).unlock, overlaid⟩

end Calls

end Buenos.Fs
