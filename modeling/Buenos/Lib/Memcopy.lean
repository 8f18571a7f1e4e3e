/-
# Lib.Memcopy -- memcopy on the memory

lib/libc.c's `memcopy`, with addresses of 32 bits and a note of every address that is read or
written.  Aligned buffers are copied in words, and what is left of them in bytes; a negative
length copies nothing.  Either way the bytes that are touched are `buflen` from each address
on (`memcopy_touched`).

A word is read before it is written, a byte at a time is not.  This makes no difference, even
where the buffers overlap: aligned words are the same word or have no byte in common
(`word_bytes`).
-/
import Buenos.Lib.Libc
import Buenos.Theory.Memory
import Mathlib.Logic.Function.Basic

namespace Buenos.Lib

open Buenos.Theory

set_option autoImplicit false

/-- A pointer. -/
abbrev Address := BitVec 32

/-- The `n` addresses from `p` on, round the end of memory. -/
def span (p : Address) (n : Nat) : List Nat :=
  (List.range n).map fun i => (p + BitVec.ofNat 32 i).toNat

/-- The memory and the addresses used on it, in order. -/
structure Copying where
  mem : Memory
  read : List Nat
  written : List Nat

namespace Copying

/-- `*t = *s` for a `char` -/
def byte (c : Copying) (target source : Address) : Copying where
  mem := Function.update c.mem target.toNat (c.mem source.toNat)
  read := c.read ++ span source 1
  written := c.written ++ span target 1

/-- `*tgt = *src` for a `uint32_t` -/
def word (c : Copying) (target source : Address) : Copying where
  mem := storeWord c.mem target.toNat (loadWord c.mem source.toNat)
  read := c.read ++ span source 4
  written := c.written ++ span target 4

/-- The loops over bytes, with the number of rounds left. -/
def byteLoop : Nat → Address → Address → Copying → Copying
  | 0, _, _, c => c
  | n + 1, t, s, c => byteLoop n (t + 1) (s + 1) (c.byte t s)

/-- The loop over words. -/
def wordLoop : Nat → Address → Address → Copying → Copying
  | 0, _, _, c => c
  | n + 1, tgt, src, c => wordLoop n (tgt + 4) (src + 4) (c.word tgt src)

/-- Where the loop over words has left its pointers, the loop over bytes goes on. -/
def memcopy (c : Copying) (buflen : Int) (target source : Address) : Copying :=
  if target % 4 ≠ 0 ∨ source % 4 ≠ 0 then c.byteLoop buflen.toNat target source
  else
    let words := (buflen.tdiv 4).toNat
    (c.wordLoop words target source).byteLoop (buflen.tmod 4).toNat
      (target + BitVec.ofNat 32 (4 * words)) (source + BitVec.ofNat 32 (4 * words))

end Copying

/-! ## What is touched -/

theorem mem_span {p : Address} {n x : Nat} :
    x ∈ span p n ↔ ∃ i < n, x = (p + BitVec.ofNat 32 i).toNat := by
  simp [span, eq_comm]

@[simp] theorem length_span (p : Address) (n : Nat) : (span p n).length = n := by
  simp [span]

/-- A span goes on where its first part ends. -/
theorem span_append (p : Address) (m n : Nat) :
    span p m ++ span (p + BitVec.ofNat 32 m) n = span p (m + n) := by
  rw [span, span, span, List.range_add, List.map_append, List.map_map]
  congr 1
  refine List.map_congr_left fun i _ => ?_
  rw [Function.comp_apply, BitVec.ofNat_add, BitVec.add_assoc]

namespace Copying

/-- What is touched, apart from the memory. -/
theorem byteLoop_touched (n : Nat) (c : Copying) (t s : Address) :
    (c.byteLoop n t s).read = c.read ++ span s n ∧
      (c.byteLoop n t s).written = c.written ++ span t n := by
  induction n generalizing c t s with
  | zero => simp [byteLoop, span]
  | succ n ih =>
      obtain ⟨read, written⟩ := ih (c.byte t s) (t + 1) (s + 1)
      rw [byteLoop, read, written, byte]
      simp only [List.append_assoc]
      have one : (1 : Address) = BitVec.ofNat 32 1 := rfl
      rw [one, span_append, span_append, Nat.add_comm 1 n]
      exact ⟨rfl, rfl⟩

theorem wordLoop_touched (n : Nat) (c : Copying) (tgt src : Address) :
    (c.wordLoop n tgt src).read = c.read ++ span src (4 * n) ∧
      (c.wordLoop n tgt src).written = c.written ++ span tgt (4 * n) := by
  induction n generalizing c tgt src with
  | zero => simp [wordLoop, span]
  | succ n ih =>
      obtain ⟨read, written⟩ := ih (c.word tgt src) (tgt + 4) (src + 4)
      rw [wordLoop, read, written, word]
      simp only [List.append_assoc]
      have four : (4 : Address) = BitVec.ofNat 32 4 := rfl
      rw [four, span_append, span_append, show 4 + 4 * n = 4 * (n + 1) by omega]
      exact ⟨rfl, rfl⟩

/-- The words and the bytes after them make up the length. -/
theorem memcopy_parts (buflen : Int) :
    4 * (buflen.tdiv 4).toNat + (buflen.tmod 4).toNat = buflen.toNat := by
  have := Int.mul_tdiv_add_tmod buflen 4
  rcases Int.le_total 0 buflen with low | negative
  · have := Int.tdiv_nonneg low (show (0 : Int) ≤ 4 by decide)
    have := Int.tmod_nonneg (4 : Int) low
    omega
  · have opposite := Int.tdiv_nonneg (Int.neg_nonneg_of_nonpos negative)
      (show (0 : Int) ≤ 4 by decide)
    rw [Int.neg_tdiv] at opposite
    have rest := Int.tmod_nonneg (4 : Int) (Int.neg_nonneg_of_nonpos negative)
    rw [Int.neg_tmod] at rest
    omega

/-- **memcopy** reads and writes `buflen` bytes, in words or not. -/
theorem memcopy_touched (c : Copying) (buflen : Int) (target source : Address) :
    (c.memcopy buflen target source).read = c.read ++ span source buflen.toNat ∧
      (c.memcopy buflen target source).written = c.written ++ span target buflen.toNat := by
  unfold memcopy
  split
  · exact byteLoop_touched _ c target source
  · have parts := memcopy_parts buflen
    obtain ⟨read, written⟩ := wordLoop_touched (buflen.tdiv 4).toNat c target source
    obtain ⟨read', written'⟩ := byteLoop_touched (buflen.tmod 4).toNat
      (c.wordLoop (buflen.tdiv 4).toNat target source)
      (target + BitVec.ofNat 32 (4 * (buflen.tdiv 4).toNat))
      (source + BitVec.ofNat 32 (4 * (buflen.tdiv 4).toNat))
    dsimp only
    rw [read', written', read, written, List.append_assoc, List.append_assoc, span_append,
      span_append, parts]
    exact ⟨rfl, rfl⟩

/-! ## Words and bytes -/

theorem toNat_ofNat_add {p : Address} {i : Nat} (room : p.toNat + i < 4294967296) :
    (p + BitVec.ofNat 32 i).toNat = p.toNat + i := by
  rw [BitVec.toNat_add, BitVec.toNat_ofNat]
  omega

theorem aligned_iff (p : Address) : p % 4 = 0 ↔ p.toNat % 4 = 0 := by
  rw [← BitVec.toNat_inj, BitVec.toNat_umod]
  rfl

theorem aligned_next {p : Address} (aligned : p % 4 = 0) : (p + 4) % 4 = 0 := by
  rw [aligned_iff] at aligned ⊢
  rw [BitVec.toNat_add]
  change (p.toNat + 4) % 4294967296 % 4 = 0
  omega

/-- The notes have no influence on the copy. -/
theorem byteLoop_mem {c d : Copying} (same : c.mem = d.mem) (n : Nat) (t s : Address) :
    (c.byteLoop n t s).mem = (d.byteLoop n t s).mem := by
  induction n generalizing c d t s with
  | zero => exact same
  | succ n ih => exact ih (by rw [byte, byte, same]) (t + 1) (s + 1)

theorem byteLoop_add (m n : Nat) (c : Copying) (t s : Address) :
    c.byteLoop (m + n) t s =
      (c.byteLoop m t s).byteLoop n (t + BitVec.ofNat 32 m) (s + BitVec.ofNat 32 m) := by
  induction m generalizing c t s with
  | zero => simp [byteLoop]
  | succ m ih =>
      have next : ∀ p : Address, p + 1 + BitVec.ofNat 32 m = p + BitVec.ofNat 32 (m + 1) := by
        intro p
        rw [Nat.add_comm m, BitVec.ofNat_add, BitVec.add_assoc]
        rfl
      rw [Nat.succ_add, byteLoop, byteLoop, ih, next, next]

/-- Between aligned words, a byte that is read has not been written before. -/
theorem word_bytes (c : Copying) {t s : Address} (alignedT : t % 4 = 0) (alignedS : s % 4 = 0) :
    (c.word t s).mem = (c.byteLoop 4 t s).mem := by
  rw [aligned_iff] at alignedT alignedS
  have room : ∀ {p : Address}, p.toNat % 4 = 0 → ∀ i < 4, (p + BitVec.ofNat 32 i).toNat = p.toNat + i := by
    intro p aligned i less
    have := p.isLt
    exact toNat_ofNat_add (by omega)
  have first : (t + 1).toNat = t.toNat + 1 := room alignedT 1 (by decide)
  have second : (t + 1 + 1).toNat = t.toNat + 2 := by
    rw [BitVec.add_assoc]
    exact room alignedT 2 (by decide)
  have third : (t + 1 + 1 + 1).toNat = t.toNat + 3 := by
    rw [BitVec.add_assoc, BitVec.add_assoc]
    exact room alignedT 3 (by decide)
  have first' : (s + 1).toNat = s.toNat + 1 := room alignedS 1 (by decide)
  have second' : (s + 1 + 1).toNat = s.toNat + 2 := by
    rw [BitVec.add_assoc]
    exact room alignedS 2 (by decide)
  have third' : (s + 1 + 1 + 1).toNat = s.toNat + 3 := by
    rw [BitVec.add_assoc, BitVec.add_assoc]
    exact room alignedS 3 (by decide)
  obtain ⟨high, upper, lower, low⟩ := extract_append (c.mem s.toNat) (c.mem (s.toNat + 1))
    (c.mem (s.toNat + 2)) (c.mem (s.toNat + 3))
  funext x
  simp only [word, byteLoop, byte, storeWord, loadWord, first, second, third, first', second', third',
    high, upper, lower, low, Function.update_apply]
  grind

/-- The loop over words copies what a loop over their bytes would copy. -/
theorem wordLoop_bytes (n : Nat) (c : Copying) {t s : Address} (alignedT : t % 4 = 0)
    (alignedS : s % 4 = 0) : (c.wordLoop n t s).mem = (c.byteLoop (4 * n) t s).mem := by
  induction n generalizing c t s with
  | zero => rfl
  | succ n ih =>
      rw [wordLoop, ih _ (aligned_next alignedT) (aligned_next alignedS), Nat.mul_succ, Nat.add_comm,
        byteLoop_add]
      exact byteLoop_mem (word_bytes c alignedT alignedS) _ _ _

/-- **memcopy** leaves the memory that copying byte by byte, in increasing order, leaves. -/
theorem memcopy_bytes (c : Copying) (buflen : Int) (target source : Address) :
    (c.memcopy buflen target source).mem =
      if buflen ≤ 0 then c.mem else (c.byteLoop buflen.toNat target source).mem := by
  have bytes : (c.memcopy buflen target source).mem = (c.byteLoop buflen.toNat target source).mem := by
    unfold memcopy
    split
    · rfl
    · rename_i aligned
      rw [not_or, ne_eq, ne_eq, Decidable.not_not, Decidable.not_not] at aligned
      rw [← memcopy_parts buflen, byteLoop_add]
      exact byteLoop_mem (wordLoop_bytes _ c aligned.1 aligned.2) _ _ _
  rw [bytes]
  split
  · rw [Int.toNat_of_nonpos ‹_›]
    rfl
  · rfl

end Copying

end Buenos.Lib
