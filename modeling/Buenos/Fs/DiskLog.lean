/-
# Fs.DiskLog -- what a run did to the disk

`Logged s t` says that the requests served between two states account for what changed on the
disk: a block that no served write names is as it was.  All programs made of requests and
buffer edits go along `Logged` (`Logs`), whatever the device answers, so a frame condition of
a loop follows from the list of its requests.
-/
import Buenos.Fs.FlatFs

namespace Buenos.Fs

open Buenos.Lib Buenos.Theory

set_option autoImplicit false

namespace Volume

variable {β : Type} {s t u : Volume β} {asked : List Request}

/-- From `s` to `t` the requests `asked` were served, the last one first. -/
structure Asked (s t : Volume β) (asked : List Request) : Prop where
  served : t.disk.served = asked ++ s.disk.served
  kept : ∀ x, ⟨x, .write⟩ ∉ asked → t.blocks x = s.blocks x

structure Logged (s t : Volume β) : Prop where
  same : Volume.Same s t
  asked : ∃ asked, Asked s t asked

/-- **Frame.**  With the served requests known, a block is kept that none of them writes. -/
theorem Logged.kept (logged : Logged s t) (served : t.disk.served = asked ++ s.disk.served)
    {x : Nat} (absent : ⟨x, .write⟩ ∉ asked) : t.blocks x = s.blocks x := by
  obtain ⟨asked', served', kept⟩ := logged.asked
  obtain rfl : asked' = asked := List.append_cancel_right (served'.symm.trans served)
  exact kept x absent

theorem Asked.refl (s : Volume β) : Asked s s [] := ⟨rfl, fun _ _ => rfl⟩

theorem Asked.of_disk (here : Asked s t asked) (same : u.disk = t.disk) : Asked s u asked where
  served := (congrArg Disk.served same).trans here.served
  kept := fun x absent => (congrArg (fun d : Disk => d.blocks x) same).trans (here.kept x absent)

theorem Asked.append {after : List Request} (first : Asked s t asked) (rest : Asked t u after) :
    Asked s u (after ++ asked) where
  served := by rw [rest.served, first.served, List.append_assoc]
  kept := fun x absent => by
    rw [List.mem_append, not_or] at absent
    rw [rest.kept x absent.1, first.kept x absent.2]

/-- After a request that was refused. -/
def wasRefused (s : Volume β) : Volume β :=
  { s with disk := { s.disk with asked := s.disk.asked + 1 } }

theorem Asked.wasRefused (s : Volume β) : Asked s s.wasRefused [] := ⟨rfl, fun _ _ => rfl⟩

theorem Asked.didWrite (s : Volume β) (block : Nat) (content : Block) :
    Asked s (s.didWrite block content) [⟨block, .write⟩] where
  served := rfl
  kept := fun x absent => by
    refine Function.update_of_ne (fun same => absent ?_) _ _
    rw [same]
    exact List.mem_singleton_self _

variable [DecidableEq β]

theorem Asked.didRead (s : Volume β) (block : Nat) (b : β) : Asked s (s.didRead block b) [⟨block, .read⟩] :=
  ⟨rfl, fun _ _ => rfl⟩

theorem Logged.refl (s : Volume β) : Logged s s := ⟨.refl s, [], .refl s⟩

theorem Logged.trans (first : Logged s t) (second : Logged t u) : Logged s u := by
  obtain ⟨same, before, asked⟩ := first
  obtain ⟨same', after, asked'⟩ := second
  exact ⟨same.trans same', after ++ before, asked.append asked'⟩

instance : Std.Refl (Logged (β := β)) := ⟨.refl⟩

instance : IsTrans (Volume β) Logged := ⟨fun _ _ _ => .trans⟩

end Volume

/-- A program made of requests and of edits of the buffers. -/
abbrev Logs {β α : Type} (m : Prog (Volume β) α) : Prop := Prog.Follows Volume.Logged m

section Requests

variable {β : Type}

/-- **A write** is served, or refused. -/
theorem writeBlock_outcome (s : Volume β) (block : Word) (content : Block) :
    (writeBlock block content).Keeps s fun ok t =>
      (ok = true ∧ t = s.didWrite block.toNat content) ∨ (ok = false ∧ t = s.wasRefused) := by
  intro ok t ran
  obtain ⟨d, inner, rfl⟩ := Prog.zoom_returned.1 ran
  obtain ⟨-, rfl⟩ := diskSubmitRequest_returned inner
  cases ok with
  | false => exact .inr ⟨rfl, rfl⟩
  | true => exact .inl ⟨rfl, rfl⟩

theorem writeBuffer_outcome (s : Volume β) (block : Word) (b : β) :
    (writeBuffer block b).Keeps s fun ok t =>
      (ok = true ∧ t = s.didWrite block.toNat (s.buffer b)) ∨ (ok = false ∧ t = s.wasRefused) :=
  writeBlock_outcome s block (s.buffer b)

theorem writeBlock_logs (block : Word) (content : Block) :
    Logs (writeBlock block content : Prog (Volume β) Bool) := by
  intro s ok t ran
  rcases writeBlock_outcome s block content ok t ran with ⟨-, rfl⟩ | ⟨-, rfl⟩
  · exact ⟨⟨rfl, rfl, rfl, rfl⟩, _, .didWrite s block.toNat content⟩
  · exact ⟨⟨rfl, rfl, rfl, rfl⟩, _, .wasRefused s⟩

theorem writeBuffer_logs (block : Word) (b : β) : Logs (writeBuffer block b) :=
  fun s => writeBlock_logs block (s.buffer b) s

variable [DecidableEq β]

/-- **A read** is served, or refused. -/
theorem readBlock_outcome (s : Volume β) (block : Word) (b : β) :
    (readBlock block b).Keeps s fun ok t =>
      (ok = true ∧ t = s.didRead block.toNat b) ∨ (ok = false ∧ t = s.wasRefused) := by
  intro ok t ran
  unfold readBlock at ran
  split at ran
  · rename_i d served
    cases ran
    obtain ⟨-, rfl⟩ := diskSubmitRequest_returned served
    exact .inl ⟨rfl, rfl⟩
  · rename_i d refused
    cases ran
    obtain ⟨-, rfl⟩ := diskSubmitRequest_returned refused
    exact .inr ⟨rfl, rfl⟩
  · cases ran

theorem readBlock_logs (block : Word) (b : β) : Logs (readBlock block b) := by
  intro s ok t ran
  rcases readBlock_outcome s block b ok t ran with ⟨-, rfl⟩ | ⟨-, rfl⟩
  · exact ⟨⟨rfl, rfl, rfl, rfl⟩, _, .didRead s block.toNat b⟩
  · exact ⟨⟨rfl, rfl, rfl, rfl⟩, _, .wasRefused s⟩

/-- An edit of a buffer. -/
theorem edit_logs (b : β) (content : Volume β → Block) :
    Logs (Prog.modify fun s : Volume β => s.setBuffer b (content s)) :=
  .modify fun _ => ⟨.setBuffer _ _, [], rfl, fun _ _ => rfl⟩

end Requests

/-! ## FlatFS -/

theorem flatfsBmAlloc_logs (b : FlatBuffer) (i : Nat) : Logs (flatfsBmAlloc b i) := by
  intro s a t ran
  unfold flatfsBmAlloc at ran
  split at ran <;>
  · cases ran
    exact ⟨⟨rfl, rfl, rfl, rfl⟩, [], rfl, fun _ _ => rfl⟩

theorem allocZeroed_logs (b : FlatBuffer) (n : Nat) : ∀ i, Logs (allocZeroed b i n) := by
  induction n with
  | zero => exact fun _ => .pure true
  | succ n ih =>
      intro i
      refine .branch (flatfsBmAlloc_logs b i) ?_ (.pure false)
      refine .bind (.gets _) fun block => ?_
      exact .branch (writeBlock_logs block zeroblock) (ih (i + 1)) (.pure false)

theorem clearWords_logs (b : FlatBuffer) (lo hi : Nat) : Logs (clearWords b lo hi) := edit_logs _ _

theorem fillIndir_logs (todbl : Option Nat) (numblocks offset : Nat) :
    Logs (fillIndir todbl numblocks offset) := by
  refine .bind (.gets _) fun ind => .branch (readBlock_logs ind _) ?_ (.pure false)
  refine .branch (allocZeroed_logs .si numblocks offset) ?_ (.pure false)
  refine .bind (clearWords_logs _ _ _) fun _ => .bind (.gets _) fun ind => ?_
  exact writeBuffer_logs ind _

theorem flatfsAllocIndir_logs (todbl : Option Nat) (numblocks offset : Nat) :
    Logs (flatfsAllocIndir todbl numblocks offset) := by
  refine .bind (.assert _ _) fun _ => .bind (.gets _) fun ind => ?_
  have filled := fillIndir_logs todbl numblocks offset
  refine .ite (.branch (flatfsBmAlloc_logs _ _) filled (.pure false)) ?_
  exact .branch (.pure true) filled (.pure false)

theorem allocDouble_logs (rounds : Nat) :
    ∀ i numblocks offset, Logs (allocDouble rounds i numblocks offset) := by
  induction rounds with
  | zero => exact fun _ _ _ => .pure true
  | succ rounds ih =>
      intro i numblocks offset
      refine .ite (.pure true) ?_
      exact .branch (flatfsAllocIndir_logs _ _ _) (ih _ _ _) (.pure false)

theorem storeBat_logs : Logs storeBat := writeBuffer_logs _ _

theorem allocBlocksDouble_logs (numblocks offset : Nat) :
    Logs (allocBlocksDouble numblocks offset) := by
  refine .ite (.bind (.gets _) fun dbl => .branch (readBlock_logs dbl _) ?_ (.pure false))
    storeBat_logs
  refine .branch (allocDouble_logs _ _ _ _) (.bind (.gets _) fun dbl => ?_) (.pure false)
  exact .branch (writeBuffer_logs dbl _) storeBat_logs (.pure false)

theorem flatfsAllocBlocks_logs (numblocks offset : Nat) :
    Logs (flatfsAllocBlocks numblocks offset) := by
  have single : ∀ numblocks offset, Logs (allocBlocksSingle numblocks offset) := fun _ _ =>
    .ite (.branch (flatfsAllocIndir_logs _ _ _) (allocBlocksDouble_logs _ _) (.pure false))
      (allocBlocksDouble_logs _ _)
  refine .ite (.branch (allocZeroed_logs _ _ _) ?_ (.pure false)) (single _ _)
  exact .bind (clearWords_logs _ _ _) fun _ => single _ _

theorem flatfsFree_logs (block : Word) : Logs (flatfsFree block) :=
  .bind (.assert _ _) fun _ => .bind (.assert _ _) fun _ => edit_logs _ _

theorem freeNamed_logs (b : FlatBuffer) (n : Nat) : ∀ i, Logs (freeNamed b i n) := by
  induction n with
  | zero => exact fun _ => .pure _
  | succ n ih =>
      intro i
      refine .bind (.gets _) fun block => .ite ?_ (ih (i + 1))
      exact .bind (flatfsFree_logs block) fun _ => ih (i + 1)

theorem loadIndir_logs (ind : Word) (indirbuf slot : Nat) :
    Logs (do
      let loaded ← if indirbuf = 0 then readBlock ind .si else pure true
      if loaded then Prog.gets fun s : Flat => s.buffer .si slot
      else pure (BitVec.ofInt 32 VFS_ERROR)) := by
  refine .ite (.branch (readBlock_logs ind _) (.gets _) (.pure _)) ?_
  exact .branch (.pure true) (.gets _) (.pure _)

theorem flatfsGetblock_logs (block indirbuf : Nat) : Logs (flatfsGetblock block indirbuf) := by
  refine .ite (.gets _) (.ite (.bind (.gets _) fun ind => loadIndir_logs ind _ _) ?_)
  exact .bind (.assert _ _) fun _ => .bind (.gets _) fun ind => loadIndir_logs ind _ _

theorem writeLoop_logs (b1 b2 : Nat) (buffer : Nat → Byte) (datasize offset : Int) (n : Nat) :
    ∀ b written, Logs (writeLoop b1 b2 buffer datasize offset n b written) := by
  induction n with
  | zero => exact fun _ _ => .pure _
  | succ n ih =>
      intro b written
      refine .bind (flatfsGetblock_logs _ _) fun block => ?_
      have stored : ∀ (content : Flat → Block) written,
          Logs (do
            Prog.modify fun s : Flat => s.setBuffer .bat (content s)
            let stored ← writeBuffer block .bat
            if stored then writeLoop b1 b2 buffer datasize offset n (b + 1) written
            else pure none) := fun content written =>
        .bind (edit_logs _ _) fun _ => .branch (writeBuffer_logs _ _) (ih _ _) (.pure none)
      refine .ite ?_ (.ite ?_ (stored _ _))
      · exact .branch (readBlock_logs _ _) (stored _ _) (.pure none)
      · exact .branch (readBlock_logs _ _) (stored _ _) (.pure none)

end Buenos.Fs
