/-
# Kernel.KmallocRuns -- static memory under any sequence of requests

A run is `kmalloc_init` and then requests of any sizes that an `int` can say; a request that
panics ends it.  The regions given out are kept, the latest first.

The limit check adds the size to the start of the free area modulo 2^32.  `Unwrapped` requests
are those whose sum does not pass 2^32: in runs of such requests the regions are where they
should be (`kmallocRuns_sound`), and the first other request gets a region that ends outside
memory.
-/
import Buenos.Kernel.Kmalloc
import Buenos.Theory.Run

namespace Buenos.Kernel

open Buenos.Theory

set_option autoImplicit false

structure KmallocRun where
  heap : Kmalloc
  regions : List Region

/-- One request. -/
def kmallocStep (s : KmallocRun) (bytes : Int) : Option KmallocRun :=
  if 0 ≤ bytes ∧ bytes < 0x80000000 then
    match kmalloc bytes s.heap with
    | .returned (start, heap) =>
        some { heap := heap, regions := { start := start, bytes := bytes.toNat } :: s.regions }
    | .stopped _ => none
  else none

def kmallocSystem (numPages : Nat) (kernelEnd : BitVec 32) : System KmallocRun Int where
  initial := fun s => s = { heap := kmallocInit numPages kernelEnd, regions := [] }
  step := kmallocStep

/-- The machine: memory starts at 0x80000000 and ends below 2^32, and the kernel image is in
it. -/
structure Boots (numPages : Nat) (kernelEnd : BitVec 32) : Prop where
  memory : numPages < 0x80000
  above : KERNEL_BOOT_ADDRESS.toNat ≤ kernelEnd.toNat
  below : kernelEnd.toNat ≤ 0x80000000 + numPages * 4096

/-- The regions given out are word-aligned, in the memory behind the kernel image, and apart
from each other. -/
structure StaticRegions (kernelEnd : BitVec 32) (s : KmallocRun) : Prop where
  limit : s.heap.freeAreaStart.toNat ≤ s.heap.memoryEnd.toNat
  aligned : ∀ r ∈ s.regions, r.start.toNat % 4 = 0
  inside : ∀ r ∈ s.regions, kernelEnd.toNat ≤ r.start.toNat ∧
    r.start.toNat + r.bytes ≤ s.heap.memoryEnd.toNat
  disjoint : s.regions.Pairwise fun later earlier =>
    earlier.start.toNat + earlier.bytes ≤ later.start.toNat

/-- The next request panics if it does not fit, and keeps the regions in order if it returns. -/
def RequestSound (kernelEnd : BitVec 32) (s : KmallocRun) (bytes : Int) : Prop :=
  (s.heap.memoryEnd.toNat < s.heap.freeAreaStart.toNat + bytes.toNat →
    kmalloc bytes s.heap = .stopped .assertion) ∧
  (kmalloc bytes).Keeps s.heap fun start heap =>
    StaticRegions kernelEnd
      { heap := heap, regions := { start := start, bytes := bytes.toNat } :: s.regions }

/-- The sum of the limit check stays below 2^32. -/
def Unwrapped (s : KmallocRun) (bytes : Int) : Prop :=
  s.heap.freeAreaStart.toNat + bytes.toNat < 0x100000000

instance (s : KmallocRun) (bytes : Int) : Decidable (Unwrapped s bytes) := by
  unfold Unwrapped
  infer_instance

section Requests

variable {numPages : Nat} {kernelEnd : BitVec 32} {s t : KmallocRun} {bytes : Int}

theorem toNat_wordAlign {addr : BitVec 32} (room : addr.toNat + 3 < 0x100000000) :
    (wordAlign addr).toNat = (addr.toNat + 3) / 4 * 4 := by
  have low : addr &&& 0x03#32 ≠ 0 ↔ addr.toNat % 4 ≠ 0 := by
    rw [← toNat_and_three, ne_eq, ← BitVec.toNat_inj]
    rfl
  rw [wordAlign]
  split
  · rename_i unaligned
    have rest := low.1 unaligned
    rw [toNat_and_not_three, BitVec.toNat_add, show (4#32).toNat = 4 by rfl]
    omega
  · rename_i aligned
    have rest := Decidable.not_not.1 (mt low.2 aligned)
    omega

/-- What every run keeps: the regions, and the bounds of the free area. -/
structure Ordered (numPages : Nat) (kernelEnd : BitVec 32) (s : KmallocRun) : Prop where
  sound : StaticRegions kernelEnd s
  memoryEnd : s.heap.memoryEnd.toNat = 0x80000000 + numPages * 4096
  word : s.heap.freeAreaStart.toNat % 4 = 0
  image : kernelEnd.toNat ≤ s.heap.freeAreaStart.toNat
  below : ∀ r ∈ s.regions, r.start.toNat + r.bytes ≤ s.heap.freeAreaStart.toNat

theorem Ordered.init (boots : Boots numPages kernelEnd) :
    Ordered numPages kernelEnd { heap := kmallocInit numPages kernelEnd, regions := [] } := by
  obtain ⟨memory, above, below⟩ := boots
  have boot : KERNEL_BOOT_ADDRESS.toNat = 0x80010000 := by decide
  have limit : (kmallocInit numPages kernelEnd).memoryEnd.toNat =
      0x80000000 + numPages * 4096 := by
    simp only [kmallocInit, BitVec.toNat_add, BitVec.toNat_mul, BitVec.toNat_ofNat]
    omega
  have start : (kmallocInit numPages kernelEnd).freeAreaStart.toNat =
      (kernelEnd.toNat + 3) / 4 * 4 := toNat_wordAlign (by omega)
  refine ⟨⟨?_, nofun, nofun, .nil⟩, limit, ?_, ?_, nofun⟩
  · change (kmallocInit numPages kernelEnd).freeAreaStart.toNat ≤
      (kmallocInit numPages kernelEnd).memoryEnd.toNat
    omega
  · change (kmallocInit numPages kernelEnd).freeAreaStart.toNat % 4 = 0
    omega
  · change kernelEnd.toNat ≤ (kmallocInit numPages kernelEnd).freeAreaStart.toNat
    omega

/-- A call is its limit check and the move of the free area. -/
theorem kmalloc_apply (boots : Boots numPages kernelEnd) (ordered : Ordered numPages kernelEnd s)
    (nonneg : 0 ≤ bytes) :
    kmalloc bytes s.heap =
      if (s.heap.freeAreaStart + BitVec.ofInt 32 bytes).toNat ≤ s.heap.memoryEnd.toNat then
        .returned (s.heap.freeAreaStart, { s.heap with
          freeAreaStart := wordAlign (s.heap.freeAreaStart + BitVec.ofInt 32 bytes) })
      else .stopped .assertion := by
  have boot : KERNEL_BOOT_ADDRESS.toNat = 0x80010000 := by decide
  have above := boots.above
  have image := ordered.image
  have word := ordered.word
  have enabled : decide (s.heap.freeAreaStart ≠ 0xffffffff#32) = true := by
    refine decide_eq_true fun disabled => ?_
    rw [disabled] at word
    exact absurd word (by decide)
  have initialised : decide (s.heap.freeAreaStart ≠ 0) = true := by
    refine decide_eq_true fun zero => ?_
    rw [zero] at image
    change kernelEnd.toNat ≤ 0 at image
    omega
  rw [kmalloc, Prog.bind_gets_apply, Prog.bind_assert_apply, if_pos enabled,
    Prog.bind_assert_apply, if_pos initialised, Prog.bind_assert_apply,
    if_pos (decide_eq_true nonneg), Prog.bind_assert_apply]
  by_cases fits : (s.heap.freeAreaStart + BitVec.ofInt 32 bytes).toNat ≤ s.heap.memoryEnd.toNat
  · rw [if_pos (decide_eq_true fits), if_pos fits]
    rfl
  · rw [if_neg (by simpa using fits), if_neg fits]

theorem toNat_add_ofInt (start : BitVec 32) (nonneg : 0 ≤ bytes) :
    (start + BitVec.ofInt 32 bytes).toNat = (start.toNat + bytes.toNat) % 0x100000000 := by
  rw [BitVec.toNat_add, BitVec.toNat_ofInt]
  omega

/-- A request whose sum does not wrap. -/
theorem Ordered.request (boots : Boots numPages kernelEnd)
    (ordered : Ordered numPages kernelEnd s) (nonneg : 0 ≤ bytes) (unwrapped : Unwrapped s bytes) :
    (s.heap.memoryEnd.toNat < s.heap.freeAreaStart.toNat + bytes.toNat →
      kmalloc bytes s.heap = .stopped .assertion) ∧
    (kmalloc bytes).Keeps s.heap fun start heap =>
      Ordered numPages kernelEnd
        { heap := heap, regions := { start := start, bytes := bytes.toNat } :: s.regions } := by
  have sum : (s.heap.freeAreaStart + BitVec.ofInt 32 bytes).toNat =
      s.heap.freeAreaStart.toNat + bytes.toNat := by
    rw [toNat_add_ofInt _ nonneg]
    exact Nat.mod_eq_of_lt unwrapped
  have call := kmalloc_apply boots ordered nonneg
  obtain ⟨⟨limit, aligned, inside, disjoint⟩, memoryEnd, word, image, below⟩ := ordered
  have memory := boots.memory
  constructor
  · intro large
    rw [call, if_neg (by omega)]
  · intro start heap ran
    rw [call] at ran
    split at ran
    · rename_i fits
      cases ran
      have next : (wordAlign (s.heap.freeAreaStart + BitVec.ofInt 32 bytes)).toNat = _ :=
        toNat_wordAlign (by omega)
      rw [sum] at fits next
      refine ⟨⟨?_, List.forall_mem_cons.2 ⟨word, aligned⟩,
        List.forall_mem_cons.2 ⟨⟨image, fits⟩, inside⟩, List.pairwise_cons.2 ⟨below, disjoint⟩⟩,
        memoryEnd, ?_, ?_, List.forall_mem_cons.2 ⟨?_, fun r mem => ?_⟩⟩
      · change (wordAlign _).toNat ≤ s.heap.memoryEnd.toNat
        omega
      · change (wordAlign _).toNat % 4 = 0
        omega
      · change kernelEnd.toNat ≤ (wordAlign _).toNat
        omega
      · change s.heap.freeAreaStart.toNat + bytes.toNat ≤ (wordAlign _).toNat
        omega
      · have earlier := below r mem
        change _ ≤ (wordAlign _).toNat
        omega
    · cases ran

/-- A request whose sum wraps gets a region that ends outside memory. -/
theorem Ordered.wrapped (boots : Boots numPages kernelEnd)
    (ordered : Ordered numPages kernelEnd s) (nonneg : 0 ≤ bytes) (int : bytes < 0x80000000)
    (wraps : ¬ Unwrapped s bytes) : ∃ heap,
    kmalloc bytes s.heap = .returned (s.heap.freeAreaStart, heap) ∧
      s.heap.memoryEnd.toNat < s.heap.freeAreaStart.toNat + bytes.toNat := by
  have limit := ordered.sound.limit
  have end_ := s.heap.memoryEnd.isLt
  have start := s.heap.freeAreaStart.isLt
  rw [Unwrapped] at wraps
  refine ⟨_, (kmalloc_apply boots ordered nonneg).trans (if_pos ?_), by omega⟩
  rw [toNat_add_ofInt _ nonneg]
  omega

/-- One step of a run. -/
theorem Ordered.step (boots : Boots numPages kernelEnd)
    (ordered : Ordered numPages kernelEnd s) (unwrapped : Unwrapped s bytes)
    (taken : kmallocStep s bytes = some t) : Ordered numPages kernelEnd t := by
  rw [kmallocStep] at taken
  split at taken
  · rename_i int
    split at taken
    · rename_i start heap ran
      cases taken
      exact (ordered.request boots int.1 unwrapped).2 start heap ran
    · cases taken
  · cases taken

end Requests

/-- **Static memory.**  In every run of requests whose sums do not wrap, the regions are
word-aligned, behind the kernel image, in memory and apart; and the next request behaves if and
only if its sum does not wrap either. -/
theorem kmallocRuns_sound (numPages : Nat) (kernelEnd : BitVec 32)
    (boots : Boots numPages kernelEnd) (s : KmallocRun)
    (reached : (kmallocSystem numPages kernelEnd).ReachableWhen Unwrapped s) :
    StaticRegions kernelEnd s ∧ ∀ bytes, 0 ≤ bytes → bytes < 0x80000000 →
      (RequestSound kernelEnd s bytes ↔ Unwrapped s bytes) := by
  have ordered : Ordered numPages kernelEnd s :=
    reached.invariant (fun s start => by rw [start]; exact .init boots)
      fun s bytes t ordered unwrapped taken => ordered.step boots unwrapped taken
  refine ⟨ordered.sound, fun bytes nonneg int => ⟨fun sound => ?_, fun unwrapped => ?_⟩⟩
  · by_contra wraps
    obtain ⟨heap, ran, large⟩ := ordered.wrapped boots nonneg int wraps
    have stopped := sound.1 large
    rw [ran] at stopped
    cases stopped
  · obtain ⟨panics, keeps⟩ := ordered.request boots nonneg unwrapped
    exact ⟨panics, keeps.mono fun _ _ ordered' => ordered'.sound⟩

/-! ## A machine with one megabyte -/

/-- Three requests behind an image that ends at an odd address. -/
def threeRegions : KmallocRun :=
  ((kmallocSystem 256 0x80020001).exec
    { heap := kmallocInit 256 0x80020001, regions := [] } [10, 0, 7]).getD
    { heap := kmallocInit 256 0x80020001, regions := [] }

example : threeRegions.heap.freeAreaStart = 0x80020018 := by decide

theorem kmallocRuns_sound_three :
    StaticRegions 0x80020001 threeRegions ∧ ∀ bytes, 0 ≤ bytes → bytes < 0x80000000 →
      (RequestSound 0x80020001 threeRegions bytes ↔ Unwrapped threeRegions bytes) := by
  have ran : (kmallocSystem 256 0x80020001).exec
      { heap := kmallocInit 256 0x80020001, regions := [] } [10, 0, 7] = some threeRegions := rfl
  refine kmallocRuns_sound 256 0x80020001 ⟨by decide, by decide, by decide⟩ threeRegions
    (System.ReachableWhen.exec (.start rfl) ?_ ran)
  exact ⟨by decide, by decide, by decide, trivial⟩

/-- **The largest request** is granted on a machine with one megabyte. -/
theorem kmalloc_largest : Boots 256 0x80020000 ∧ ∃ t,
    kmallocStep { heap := kmallocInit 256 0x80020000, regions := [] } 0x7fffffff = some t ∧
      ¬ StaticRegions 0x80020000 t := by
  refine ⟨⟨by decide, by decide, by decide⟩, _, rfl, fun sound => ?_⟩
  exact absurd (sound.inside _ List.mem_cons_self).2 (by decide)

end Buenos.Kernel
