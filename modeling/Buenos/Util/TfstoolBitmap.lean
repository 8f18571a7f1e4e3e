/-
# Util.TfstoolBitmap -- one bitmap on the disk, two searches

The kernel reads a bitmap block as big-endian words and looks for a word that is not full.
The tool goes from bit to bit and converts every word it looks at.  Both find the first clear
bit and set it, and they leave the same bytes (`findnset_agree`).

`diskBit` says where on the disk a bit is, and `FirstFit` what a search should do, in terms
of these bits alone.
-/
import Buenos.Util.TfstoolImage

namespace Buenos.Util

open Buenos.Lib Buenos.Theory Buenos.Fs

set_option autoImplicit false

/-- A bit of the bitmap on the disk: words of four bytes, the high byte first. -/
def diskBit (data : Bytes) (pos : Nat) : Bool :=
  (data (4 * (pos / 32) + (3 - pos % 32 / 8))).getLsbD (pos % 8)

/-- `bitmap_findnset` of the kernel on a block: what it returns, and the bytes that the block
then has on the disk. -/
def kernelFindnset (data : Bytes) (l : Nat) : Int × Bytes :=
  match Lib.bitmapFindnset (Block.ofBytes data) l with
  | some (pos, bitmap) => (pos, Block.byte bitmap)
  | none => (-1, Block.byte (Block.ofBytes data))

/-- The first clear bit below `l` is returned and set, and no other bit changes. -/
def FirstFit (data : Bytes) (l : Nat) (result : Int × Bytes) : Prop :=
  (∃ pos < l, result.1 = pos ∧ diskBit data pos = false ∧ (∀ q < pos, diskBit data q = true) ∧
      ∀ q, diskBit result.2 q = (decide (q = pos) || diskBit data q)) ∨
    (result.1 = -1 ∧ (∀ q < l, diskBit data q = true) ∧ result.2 = data)

section Bits

variable (order : ByteOrder) (data : Bytes)

/-- The kernel's bits are those on the disk. -/
theorem diskBit_ofBytes (pos : Nat) :
    Lib.bitmapGet (Block.ofBytes data) pos = diskBit data pos := by
  have four : pos % 32 / 8 = 0 ∨ pos % 32 / 8 = 1 ∨ pos % 32 / 8 = 2 ∨ pos % 32 / 8 = 3 := by omega
  unfold Lib.bitmapGet Block.ofBytes diskBit
  simp only [BitVec.getLsbD_append]
  rcases four with byte | byte | byte | byte
  · rw [byte, if_pos (by omega), show pos % 32 = pos % 8 by omega]
  · rw [byte, if_neg (by omega), if_pos (by omega), show pos % 32 - 8 = pos % 8 by omega]
  · rw [byte, if_neg (by omega), if_neg (by omega), if_pos (by omega),
      show pos % 32 - 8 - 8 = pos % 8 by omega]
  · rw [byte, if_neg (by omega), if_neg (by omega), if_neg (by omega),
      show pos % 32 - 8 - 8 - 8 = pos % 8 by omega]
    rfl

theorem diskBit_byte (bitmap : Lib.Bitmap) (pos : Nat) :
    diskBit (Block.byte bitmap) pos = Lib.bitmapGet bitmap pos := by
  rw [← diskBit_ofBytes, Block.ofBytes_byte]

/-- The bits of the tool as well, whatever its byte order. -/
theorem bitmapGet_ofBytes (pos : Nat) :
    bitmapGet order data pos = Lib.bitmapGet (Block.ofBytes data) pos := by
  rw [bitmapGet, ntohl_hostWord]
  rfl

theorem bitmapSet_ofBytes (pos : Nat) (value : Bool) :
    bitmapSet order data pos value =
      Block.byte (Lib.bitmapSet (Block.ofBytes data) pos value) := by
  have words : Block.ofBytes (bitmapSet order data pos value) =
      Lib.bitmapSet (Block.ofBytes data) pos value := by
    rw [bitmapSet, ofBytes_setHostWord, ntohl_hostWord]
    funext k
    rw [Lib.bitmapSet, Function.update_apply]
    by_cases here : k = pos / 32
    · simp only [here, if_true]
    · simp only [here, if_false]
  funext k
  rw [← words, Block.byte_ofBytes]

theorem byte_ofBytes_self : Block.byte (Block.ofBytes data) = data := by
  funext k
  exact Block.byte_ofBytes data k

end Bits

section Searches

variable (order : ByteOrder) (data : Bytes) (l : Nat)

/-- The search of the kernel, on the bytes. -/
theorem kernelFindnset_firstFit : FirstFit data l (kernelFindnset data l) := by
  unfold kernelFindnset
  cases found : Lib.bitmapFindnset (Block.ofBytes data) l with
  | some result =>
      obtain ⟨pos, bitmap⟩ := result
      obtain ⟨inside, clear, before, rfl⟩ := bitmapFindnset_some found
      rw [diskBit_ofBytes] at clear
      refine .inl ⟨pos, inside, rfl, clear, fun q less => ?_, fun q => ?_⟩
      · rw [← diskBit_ofBytes, before q less]
      · rw [diskBit_byte, bitmapGet_bitmapSet, diskBit_ofBytes]
        by_cases here : q = pos
        · simp [here]
        · simp [here]
  | none =>
      refine .inr ⟨rfl, fun q less => ?_, byte_ofBytes_self data⟩
      rw [← diskBit_ofBytes, bitmapFindnset_none found q less]

/-- The first clear bit is found by one search if by the other. -/
theorem bitmapFindnset_kernel : bitmapFindnset order data l = kernelFindnset data l := by
  unfold bitmapFindnset kernelFindnset
  rw [Int.toNat_natCast]
  simp only [bitmapGet_ofBytes]
  cases found : Lib.bitmapFindnset (Block.ofBytes data) l with
  | some result =>
      obtain ⟨pos, bitmap⟩ := result
      obtain ⟨inside, clear, before, rfl⟩ := bitmapFindnset_some found
      have first : (List.range l).find? (fun i => !Lib.bitmapGet (Block.ofBytes data) i) = some pos := by
        rw [List.find?_range_eq_some]
        refine ⟨by simp [clear], List.mem_range.2 inside, fun q less => ?_⟩
        simp [before q less]
      rw [first]
      dsimp only
      rw [bitmapSet_ofBytes]
  | none =>
      have all := bitmapFindnset_none found
      have nothing : (List.range l).find? (fun i => !Lib.bitmapGet (Block.ofBytes data) i) = none := by
        rw [List.find?_eq_none]
        intro q mem
        simp [all q (List.mem_range.1 mem)]
      rw [nothing]
      dsimp only
      rw [byte_ofBytes_self]

/-- **The kernel and the tool agree** on every bitmap: they return the same bit, the first
clear one, and leave the same bytes. -/
theorem findnset_agree :
    bitmapFindnset order data l = kernelFindnset data l ∧
      FirstFit data l (kernelFindnset data l) :=
  ⟨bitmapFindnset_kernel order data l, kernelFindnset_firstFit data l⟩

end Searches

end Buenos.Util
