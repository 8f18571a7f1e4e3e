/-
# Fs.FlatData -- the bytes that FlatFS moves

The data half of the loops of `flatfs_read` and `flatfs_write`, over a file whose buffers are in
order (`Located`, `Loaded`).  Both loops handle the first, the last and the inner blocks of a
transfer by separate code; `readLoop_bytes` and `writeLoop_bytes` say that what they move before
block `b` is in every case the first `done off m b` bytes of it.

The contents of a file are read off the disk through `resolve`.
-/
import Buenos.Fs.FlatBlocks
import Buenos.Fs.TfsData

namespace Buenos.Fs

open Buenos.Lib Buenos.Theory

set_option autoImplicit false

/-- Byte `q` of the file with inode `ino`. -/
def flatByte (blocks : Nat → Block) (ino : Block) (q : Nat) : Byte :=
  (blocks (resolve blocks ino (q / 512)).toNat).byte (q % 512)

/-- The contents of a file; a negative size counts as none. -/
def flatBytes (blocks : Nat → Block) (ino : Block) : List Byte :=
  (List.range (fileSize ino).toNat).map (flatByte blocks ino)

/-- A byte of block `b` of the file. -/
theorem flatByte_place (blocks : Nat → Block) (ino : Block) (b : Nat) {p : Nat} (inside : p < 512) :
    flatByte blocks ino (512 * b + p) = (blocks (resolve blocks ino b).toNat).byte p := by
  unfold flatByte
  rw [show (512 * b + p) / 512 = b by omega, show (512 * b + p) % 512 = p by omega]

namespace Volume

variable {s u v w : Flat} {k off m b n : Nat}

/-- Where block `b` of the file in the buffers lies. -/
def placeOf (s : Flat) (b : Nat) : Nat := (resolve s.blocks (s.buffer .inode) b).toNat

theorem placeOf_eq (loaded : Loaded s k) (less : b < k) : s.placeOf b = (s.fileBlock b).toNat := by
  rw [placeOf, resolve_eq loaded less]

/-- No two blocks of the file are at one place. -/
theorem placeOf_inj (loaded : Loaded s k) (nodup : (s.fileBlocks k).Nodup) {c : Nat} (first : c < k)
    (second : b < k) (same : s.placeOf c = s.placeOf b) : c = b := by
  rw [placeOf_eq loaded first, placeOf_eq loaded second] at same
  exact List.inj_on_of_nodup_map nodup (List.mem_range.2 first) (List.mem_range.2 second) same

/-! ## What the loops leave alone -/

section Fixes

universe w

variable {γ : Type w} {f : Flat → γ} (reads : ∀ block b, Prog.Fixes f (readBlock block b))

include reads

theorem loadIndir_fixes (ind : Word) (indirbuf slot : Nat) :
    Prog.Fixes f (do
      let loaded ← if indirbuf = 0 then readBlock ind .si else pure true
      if loaded then Prog.gets fun s : Flat => s.buffer .si slot
      else pure (BitVec.ofInt 32 VFS_ERROR)) := by
  refine .ite ?_ ?_
  · exact .bind (reads _ _) fun loaded => .ite (.gets _) (.pure _)
  · exact .bind (.pure _) fun loaded => .ite (.gets _) (.pure _)

theorem flatfsGetblock_fixes (block indirbuf : Nat) :
    Prog.Fixes f (flatfsGetblock block indirbuf) := by
  refine .ite (.gets _) (.ite (.bind (.gets _) fun ind => loadIndir_fixes reads ind _ _) ?_)
  refine .bind (fun s a t ran => ?_) fun _ => .bind (.gets _) fun ind => loadIndir_fixes reads ind _ _
  rw [Prog.assert_apply] at ran
  split at ran <;> cases ran
  rfl

theorem readLoop_fixes (b1 : Nat) (b2 bufsize offset : Int) (n : Nat) :
    ∀ (b : Nat) (read : Int) (out : List Byte),
      Prog.Fixes f (readLoop b1 b2 bufsize offset n b read out) := by
  induction n with
  | zero => exact fun _ _ _ => .pure _
  | succ n ih =>
      intro b read out
      refine .bind (flatfsGetblock_fixes reads _ _) fun block => ?_
      refine .bind (reads _ _) fun loaded => .ite ?_ (.pure _)
      exact .bind (.gets _) fun bat => .ite (ih _ _ _) (.ite (ih _ _ _) (ih _ _ _))

variable (writes : ∀ block b, Prog.Fixes f (writeBuffer block b))
  (edits : ∀ (s : Flat) content, f (s.setBuffer .bat content) = f s)

include writes edits

theorem writeLoop_fixes (b1 b2 : Nat) (buffer : Nat → Byte) (datasize offset : Int) (n : Nat) :
    ∀ (b : Nat) (written : Int),
      Prog.Fixes f (writeLoop b1 b2 buffer datasize offset n b written) := by
  induction n with
  | zero => exact fun _ _ => .pure _
  | succ n ih =>
      intro b written
      have stored : ∀ (block : Word) (content : Flat → Block) (bytes : Int), Prog.Fixes f (do
          Prog.modify fun s : Flat => s.setBuffer .bat (content s)
          let stored ← writeBuffer block .bat
          if stored then writeLoop b1 b2 buffer datasize offset n (b + 1) bytes else pure none) :=
        fun block content bytes => .bind (.modify fun s => edits s _) fun _ =>
          .bind (writes _ _) fun _ => .ite (ih _ _) (.pure _)
      refine .bind (flatfsGetblock_fixes reads _ _) fun block => .ite ?_ (.ite ?_ ?_)
      · exact .bind (reads _ _) fun loaded => .ite (stored block _ _) (.pure _)
      · exact .bind (reads _ _) fun loaded => .ite (stored block _ _) (.pure _)
      · exact stored block _ _

end Fixes

/-- Requests fail no allocation. -/
theorem readBlock_refused (block : Word) (c : FlatBuffer) :
    Prog.Fixes (fun s : Flat => s.refused) (readBlock block c) := by
  intro s ok t ran
  rcases readBlock_outcome s block c ok t ran with ⟨-, rfl⟩ | ⟨-, rfl⟩
  · rfl
  · rfl

theorem writeBuffer_refused (block : Word) (c : FlatBuffer) :
    Prog.Fixes (fun s : Flat => s.refused) (writeBuffer block c) := by
  intro s ok t ran
  rcases writeBuffer_outcome s block c ok t ran with ⟨-, rfl⟩ | ⟨-, rfl⟩
  · rfl
  · rfl

section Loops

variable (ready : s.Ready) (file : Located s k) (loaded : Loaded s k) (positive : 0 < m)
  (inside : (off + m - 1) / 512 < k)

include ready file loaded positive inside

/-! ## Reading -/

/-- **The loop of `flatfs_read`** goes on to the end of the transfer. -/
theorem readLoop_bytes (n : Nat) :
    ∀ (b : Nat) (u : Flat), Along s u k → Cached u b → u.blocks = s.blocks →
      b + n = (off + m - 1) / 512 + 1 → off / 512 ≤ b →
      ∃ t, readLoop (off / 512) ((off + m - 1) / 512 : Nat) m off n b (done off m b)
          (extent (flatByte s.blocks (s.buffer .inode)) off (done off m b)) u =
        .returned (some ((m : Int), extent (flatByte s.blocks (s.buffer .inode)) off m), t) ∧
          Along s t k ∧ t.blocks = s.blocks := by
  induction n with
  | zero =>
      intro b u along _ disk last _
      have all : done off m b = m := by
        unfold done
        omega
      rw [all]
      exact ⟨u, rfl, along, disk⟩
  | succ n ih =>
      intro b u along cached disk last first
      obtain ⟨v, ran, ready', along', disk', holds, -, within, -⟩ :=
        lookup_round ready file loaded along (b := b) (by omega) cached
      have got := readBlock_ready ready' .bat within
      generalize place : resolve s.blocks (s.buffer .inode) b = x at ran within got
      have next := didRead_along v k x.toNat (c := .bat) (by decide) (by decide)
      have bytes : ∀ p < 512, ((v.didRead x.toNat .bat).buffer .bat).byte p =
          flatByte s.blocks (s.buffer .inode) (512 * b + p) := by
        intro p inside
        rw [flatByte_place _ _ _ inside, place, didRead_buffer, Function.update_self, disk', disk]
      obtain ⟨t, ran', along'', disk''⟩ := ih (b + 1) (v.didRead x.toNat .bat) (along'.trans next)
        (holds.next (k := k) next (by omega) rfl) (disk'.trans disk) (by omega) (by omega)
      refine ⟨t, ?_, along'', disk''⟩
      -- the bytes of this block, from position `p` of it on, come next
      have moved : ∀ p c, 512 * b + p = off + done off m b → p + c ≤ 512 →
          done off m b + c = done off m (b + 1) →
          extent (flatByte s.blocks (s.buffer .inode)) off (done off m b) ++
              (List.range c).map (fun k => ((v.didRead x.toNat .bat).buffer .bat).byte (p + k)) =
            extent (flatByte s.blocks (s.buffer .inode)) off (done off m (b + 1)) := by
        intro p c here fits more
        rw [← more, ← extent_append]
        congr 1
        apply List.map_congr_left
        intro k mem
        have := List.mem_range.1 mem
        rw [bytes _ (by omega), ← here]
        congr 1
        omega
      rw [readLoop, Prog.bind_of_returned ran, Prog.bind_of_returned got]
      simp only [if_true, Prog.bind_gets_apply]
      by_cases start : b = off / 512
      · have pos : ((off : Int) % (FLATFS_BLOCK_SIZE : Int)).toNat = off % 512 := firstPos off
        have count : min ((FLATFS_BLOCK_SIZE : Int) - (off % 512 : Nat)) m = done off m (b + 1) := by
          rw [start]
          exact firstBytes off m
        rw [if_pos start, pos, count, Int.toNat_natCast, moved _ _ (by unfold done; omega)
          (by unfold done; omega) (by unfold done; omega)]
        exact ran'
      · rw [if_neg start]
        have aligned := moved 0
        simp only [Nat.zero_add] at aligned
        by_cases final : b = (off + m - 1) / 512
        · have all : done off m (b + 1) = m := by
            unfold done
            omega
          have rest : ((m : Int) - (done off m b : Int)).toNat = m - done off m b := by omega
          rw [if_pos (by rw [final]), rest, aligned _ (by unfold done; omega)
            (by unfold done; omega) (by unfold done; omega)]
          rw [all] at ran' ⊢
          exact ran'
        · have block : done off m (b + 1) = done off m b + 512 := by
            unfold done
            omega
          rw [if_neg (by omega)]
          unfold FLATFS_BLOCK_SIZE
          rw [aligned 512 (by unfold done; omega) (by omega) block.symm]
          rw [block] at ran' ⊢
          exact ran'

/-- The loop with the lookup before it. -/
theorem readLoop_moves :
    ∃ v t, flatfsGetblock (off / 512) 0 s = .returned (s.fileBlock (off / 512), v) ∧
      readLoop (off / 512) ((off + m - 1) / 512 : Nat) m off
          ((off + m - 1) / 512 + 1 - off / 512) (off / 512) 0 [] v =
        .returned (some ((m : Int), extent (flatByte s.blocks (s.buffer .inode)) off m), t) ∧
      Along s t k ∧ t.blocks = s.blocks := by
  have none : done off m (off / 512) = 0 := by
    unfold done
    omega
  obtain ⟨v, ran, along, disk, holds, -⟩ := flatfsGetblock_start file.tables file.bound
    (show off / 512 < k by omega) ready
  obtain ⟨t, looped, along', disk'⟩ := readLoop_bytes ready file loaded positive inside
    ((off + m - 1) / 512 + 1 - off / 512) (off / 512) v along (fun _ => holds) disk (by omega)
    (Nat.le_refl _)
  rw [none] at looped
  exact ⟨v, t, ran, looped, along', disk'⟩

/-! ## Writing -/

variable (nodup : (s.fileBlocks k).Nodup) (buffer : Nat → Byte)

include nodup

/-- **The loop of `flatfs_write`** goes on to the end of the transfer. -/
theorem writeLoop_bytes (n : Nat) :
    ∀ (b : Nat) (u : Flat), Along s u k → Cached u b →
      Spliced s.blocks u.blocks s.placeOf k off (done off m b) buffer →
      b + n = (off + m - 1) / 512 + 1 → off / 512 ≤ b →
      ∃ t, writeLoop (off / 512) ((off + m - 1) / 512) buffer m off n b (done off m b) u =
          .returned (some (m : Int), t) ∧ Spliced s.blocks t.blocks s.placeOf k off m buffer := by
  induction n with
  | zero =>
      intro b u along _ spliced last _
      have all : done off m b = m := by
        unfold done
        omega
      rw [all] at spliced ⊢
      exact ⟨u, rfl, spliced⟩
  | succ n ih =>
      intro b u along cached spliced last first
      have less : b < k := by omega
      obtain ⟨v, ran, ready', along', disk, holds, -, within, apart⟩ :=
        lookup_round ready file loaded along less cached
      have distinct : ∀ c < k, s.placeOf c = s.placeOf b → c = b := fun c first =>
        placeOf_inj loaded nodup first less
      -- once the new contents of the block are in the buffer, the round is as good as over
      have stored : ∀ w : Flat, Along v w k → w.buffer .si = v.buffer .si → w.blocks = v.blocks →
          (∀ p < 512, (w.buffer .bat).byte p =
            if off ≤ 512 * b + p ∧ 512 * b + p < off + done off m (b + 1) then
              buffer (512 * b + p - off)
            else (s.blocks (s.placeOf b)).byte p) →
          ∃ t, (do
            let stored ← writeBuffer (resolve s.blocks (s.buffer .inode) b) .bat
            if stored then
              writeLoop (off / 512) ((off + m - 1) / 512) buffer m off n (b + 1) (done off m (b + 1))
            else pure none : Prog Flat (Option Int)) w = .returned (some (m : Int), t) ∧
              Spliced s.blocks t.blocks s.placeOf k off m buffer := by
        intro w next buffer' kept bytes
        obtain ⟨along'', cached'⟩ := stored_along along' holds less apart next buffer'
        obtain ⟨t, ran', spliced'⟩ := ih (b + 1) (w.didWrite (s.placeOf b) (w.buffer .bat)) along''
          cached' (by
            rw [didWrite_blocks, kept, disk]
            exact spliced.put distinct first bytes) (by omega) (by omega)
        refine ⟨t, ?_, spliced'⟩
        rw [Prog.bind_of_returned (writeBuffer_ready (ready'.same next.same) _ .bat
          (by rw [next.same.totalblocks]; exact within)), if_pos rfl]
        exact ran'
      have got := readBlock_ready ready' .bat within
      have edited : ∀ content, Along v ((v.didRead (s.placeOf b) .bat).setBuffer .bat content) k :=
        fun content => ⟨⟨rfl, rfl, rfl, rfl⟩, by simp, by simp, fun _ _ => rfl⟩
      have old : ∀ p < 512, ((v.didRead (s.placeOf b) .bat).buffer .bat).byte p =
          (s.blocks (s.placeOf b)).byte p := by
        intro p inside
        rw [didRead_buffer, Function.update_self, disk]
        exact spliced.ahead less inside
      rw [writeLoop, Prog.bind_of_returned ran]
      by_cases start : b = off / 512
      · have pos : ((off : Int) % (FLATFS_BLOCK_SIZE : Int)).toNat = off % 512 := firstPos off
        have count : min ((FLATFS_BLOCK_SIZE : Int) - (off % 512 : Nat)) m = done off m (b + 1) := by
          rw [start]
          exact firstBytes off m
        rw [if_pos start, pos, count, Prog.bind_of_returned got, if_pos rfl, Prog.bind_modify_apply,
          Int.toNat_natCast]
        refine stored _ (edited _) (by simp) rfl fun p inside => ?_
        rw [setBuffer_buffer, Function.update_self]
        subst start
        exact byte_fills_first buffer (fun p inside _ => old p inside) p inside
      · have aligned : off + done off m b = 512 * b := by
          unfold done
          omega
        rw [if_neg start]
        by_cases final : b = (off + m - 1) / 512
        · have all : done off m (b + 1) = m := by
            unfold done
            omega
          have rest : ((m : Int) - (done off m b : Int)).toNat = m - done off m b := by omega
          rw [if_pos final, Prog.bind_of_returned got, if_pos rfl, Prog.bind_modify_apply, rest,
            Int.toNat_natCast]
          have bytes : ∀ p < 512, _ :=
            byte_fills buffer aligned (show _ = _ + (m - done off m b) by omega)
              (fun p inside _ => old p inside)
          rw [all] at stored bytes
          refine stored _ (edited _) (by simp) rfl ?_
          rw [setBuffer_buffer, Function.update_self]
          exact bytes
        · have next : done off m (b + 1) = done off m b + 512 := by
            unfold done
            omega
          have direct : ∀ content, Along v (v.setBuffer .bat content) k := fun content =>
            ⟨⟨rfl, rfl, rfl, rfl⟩, by simp, by simp, fun _ _ => rfl⟩
          rw [if_neg final, Prog.bind_modify_apply, Int.toNat_natCast]
          simp only [next] at stored
          unfold FLATFS_BLOCK_SIZE
          refine stored _ (direct _) (by simp) rfl fun p inside => ?_
          rw [setBuffer_buffer, Function.update_self, ← next]
          exact byte_fills buffer aligned next (fun p inside past => by omega) p inside

/-- The loop with the lookup before it: the data is in the file, and no other block changes. -/
theorem writeLoop_moves :
    ∃ v t, flatfsGetblock (off / 512) 0 s = .returned (s.fileBlock (off / 512), v) ∧
      writeLoop (off / 512) ((off + m - 1) / 512) buffer m off
          ((off + m - 1) / 512 + 1 - off / 512) (off / 512) 0 v = .returned (some (m : Int), t) ∧
      Along s t k ∧ t.refused = s.refused ∧ (∀ x, x ∉ s.fileBlocks k → t.blocks x = s.blocks x) ∧
      Spliced s.blocks t.blocks s.placeOf k off m buffer := by
  have none : done off m (off / 512) = 0 := by
    unfold done
    omega
  obtain ⟨v, ran, along, disk, holds, -⟩ := flatfsGetblock_start file.tables file.bound
    (show off / 512 < k by omega) ready
  obtain ⟨t, looped, spliced⟩ := writeLoop_bytes ready file loaded positive inside nodup
    buffer ((off + m - 1) / 512 + 1 - off / 512) (off / 512) v along (fun _ => holds) (by
      rw [none, disk]
      exact .nothing) (by omega) (Nat.le_refl _)
  rw [none] at looped
  obtain ⟨v', r, t', ran', looped', along', -, kept⟩ := writeLoop_start ready file loaded
    (show off / 512 ≤ (off + m - 1) / 512 by omega) inside buffer m off
  cases ran.symm.trans ran'
  cases looped.symm.trans looped'
  refine ⟨v, t, ran, looped, along', ?_, kept, spliced⟩
  exact (writeLoop_fixes readBlock_refused writeBuffer_refused (fun _ _ => rfl) _ _ _ _ _ _ _ _ v _ t
    looped).trans (flatfsGetblock_fixes readBlock_refused _ _ s _ v ran)

end Loops

end Volume

end Buenos.Fs
