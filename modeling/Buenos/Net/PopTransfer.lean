/-
# Net.PopTransfer -- what the service thread copies

The copy that `pop_service_thread` makes of a frame, on the bytes of the frame's page.  The
page starts with the network frame header of 12 bytes and the POP header of 8; the size in
the POP header is whatever the network sent.  The copy is bounded by that size and by the
receive buffer, and by nothing else.
-/
import Buenos.Lib.Memcopy
import Buenos.Net.Pop
import Buenos.Vm.Pagepool

namespace Buenos.Net

open Buenos.Lib Buenos.Theory
open Buenos.Vm (PAGE_SIZE)

set_option autoImplicit false

/-- `sizeof(network_frame_header_t)` -/
def networkFrameHeaderSize : Nat := 12

/-- `sizeof(pop_header_t)` -/
def popHeaderSize : Nat := 8

/-- `f->size` -/
def popSize (mem : Memory) (f : Address) : BitVec 32 := loadWord mem (f + 4).toNat

/-- `MIN(f->size, bufsize)`; both are unsigned, and the result is stored in an `int`. -/
def transferBytes (size bufsize : BitVec 32) : Int :=
  (if size > bufsize then bufsize else size).toInt

/-- The copy of a transfer, from the frame in `page` to the socket's receive buffer, and what
is stored as the copied length. -/
def transferPayload (mem : Memory) (page rbuf bufsize : BitVec 32) : Copying × Int :=
  let f := page + BitVec.ofNat 32 networkFrameHeaderSize
  let bytes := transferBytes (popSize mem f) bufsize
  (Copying.memcopy { mem, read := [], written := [] } bytes rbuf
    (f + BitVec.ofNat 32 popHeaderSize), bytes)

/-- At most `bufsize` bytes go into the buffer, nothing is read past the end of the page, and
the length is between 0 and that of the buffer. -/
structure CopiesReceived (page rbuf bufsize : BitVec 32) (result : Copying × Int) : Prop where
  written : result.1.written.length ≤ bufsize.toNat ∧
    ∀ x ∈ result.1.written, ∃ i < bufsize.toNat, x = (rbuf + BitVec.ofNat 32 i).toNat
  read : ∀ x ∈ result.1.read, page.toNat ≤ x ∧ x < page.toNat + PAGE_SIZE
  length : 0 ≤ result.2 ∧ result.2 ≤ bufsize.toNat

/-- The room for payload in a page. -/
def payloadRoom : Nat := PAGE_SIZE - networkFrameHeaderSize - popHeaderSize

section Transfer

variable {mem : Memory} {page rbuf bufsize : BitVec 32}

/-- The length, as a number. -/
theorem transferBytes_eq (size : BitVec 32) {bufsize : BitVec 32} (int : bufsize.toNat < 2147483648) :
    transferBytes size bufsize = (min size.toNat bufsize.toNat : Nat) := by
  unfold transferBytes
  split
  · rename_i more
    rw [gt_iff_lt, BitVec.lt_def] at more
    rw [BitVec.toInt_eq_toNat_of_lt (by omega), Nat.min_eq_right (Nat.le_of_lt more)]
  · rename_i le
    rw [gt_iff_lt, BitVec.lt_def] at le
    rw [BitVec.toInt_eq_toNat_of_lt (by omega), Nat.min_eq_left (Nat.le_of_not_lt le)]

/-- The address of byte `i` of the payload. -/
theorem payload_address (page : BitVec 32) (i : Nat) :
    (page + BitVec.ofNat 32 networkFrameHeaderSize + BitVec.ofNat 32 popHeaderSize +
      BitVec.ofNat 32 i).toNat = (page.toNat + 20 + i) % 4294967296 := by
  simp only [BitVec.toNat_add, BitVec.toNat_ofNat, networkFrameHeaderSize, popHeaderSize]
  omega

/-- What a transfer touches. -/
theorem transferPayload_touched (mem : Memory) (page rbuf : BitVec 32) {size bufsize : BitVec 32}
    (header : popSize mem (page + BitVec.ofNat 32 networkFrameHeaderSize) = size)
    (int : bufsize.toNat < 2147483648) :
    (transferPayload mem page rbuf bufsize).1.read =
        span (page + BitVec.ofNat 32 networkFrameHeaderSize + BitVec.ofNat 32 popHeaderSize)
          (min size.toNat bufsize.toNat) ∧
      (transferPayload mem page rbuf bufsize).1.written =
        span rbuf (min size.toNat bufsize.toNat) ∧
      (transferPayload mem page rbuf bufsize).2 = (min size.toNat bufsize.toNat : Nat) := by
  unfold transferPayload
  dsimp only
  rw [header, transferBytes_eq size int]
  obtain ⟨read, written⟩ := Copying.memcopy_touched { mem, read := [], written := [] }
    (min size.toNat bufsize.toNat : Nat) rbuf
    (page + BitVec.ofNat 32 networkFrameHeaderSize + BitVec.ofNat 32 popHeaderSize)
  rw [read, written, Int.toNat_natCast]
  exact ⟨rfl, rfl, rfl⟩

/-- **The transfer**, exactly: everything is as it should be if and only if the size in the
header or the length of the buffer is at most what a page has room for. -/
theorem transferPayload_copiesReceived_iff (mem : Memory) {page : BitVec 32} (rbuf : BitVec 32)
    {bufsize : BitVec 32} (aligned : page.toNat % PAGE_SIZE = 0) (nonzero : 0 < page.toNat)
    (int : bufsize.toNat < 2147483648) :
    CopiesReceived page rbuf bufsize (transferPayload mem page rbuf bufsize) ↔
      (popSize mem (page + BitVec.ofNat 32 networkFrameHeaderSize)).toNat ≤ payloadRoom ∨
        bufsize.toNat ≤ payloadRoom := by
  obtain ⟨size, header⟩ : ∃ size,
      popSize mem (page + BitVec.ofNat 32 networkFrameHeaderSize) = size := ⟨_, rfl⟩
  obtain ⟨read, written, length⟩ := transferPayload_touched mem page rbuf header int
  have last := page.isLt
  change page.toNat % 4096 = 0 at aligned
  have room : payloadRoom = 4076 := rfl
  have pageSize : PAGE_SIZE = 4096 := rfl
  rw [header]
  constructor
  · intro copies
    by_contra both
    -- byte 4076 of the payload would be the first one behind the page
    have past := copies.read _ (by
      rw [read]
      exact mem_span.2 ⟨4076, by omega, rfl⟩)
    rw [payload_address] at past
    omega
  · intro fits
    refine ⟨⟨?_, fun x mem => ?_⟩, fun x mem => ?_, ?_⟩
    · rw [written, length_span]
      exact Nat.min_le_right _ _
    · rw [written] at mem
      obtain ⟨i, less, rfl⟩ := mem_span.1 mem
      exact ⟨i, by omega, rfl⟩
    · rw [read] at mem
      obtain ⟨i, less, rfl⟩ := mem_span.1 mem
      rw [payload_address]
      omega
    · rw [length]
      omega

/-- The step of the thread system that copies goes on with the same number of bytes. -/
theorem transferStep_copy (cfg : Config) (s : State) (k page bytes : Nat) (wake : Option Nat)
    {x c : Nat} (registered : (s.sockets x).rbuf = some c)
    (int : (s.sockets x).bufsize < 2147483648) :
    ∃ t, transferStep cfg s k page bytes wake x .copy = some t ∧
      t.service = .transfer .sender k page (transferBytes (s.mem page).size
        (BitVec.ofNat 32 (s.sockets x).bufsize)).toNat wake := by
  have number : (BitVec.ofNat 32 (s.sockets x).bufsize).toNat = (s.sockets x).bufsize :=
    (BitVec.toNat_ofNat _ _).trans (Nat.mod_eq_of_lt (Nat.lt_trans int (by decide)))
  rw [transferBytes_eq _ (by rw [number]; exact int), number, Int.toNat_natCast]
  exact ⟨_, by rw [transferStep, registered]; rfl, rfl⟩

end Transfer

/-! ## A large size in the header -/

/-- A page of ones. -/
def onesPage : Memory := fun _ => 0xff#8

/-- A hundred bytes of buffer bound the copy. -/
theorem transferPayload_copiesReceived_iff_small :
    CopiesReceived 0x80100000 0x80200000 100
      (transferPayload onesPage 0x80100000 0x80200000 100) :=
  (transferPayload_copiesReceived_iff onesPage 0x80200000 (by decide) (by decide)
    (by decide)).2 (.inr (by decide))

/-- **Eight kilobytes of buffer** take eight kilobytes from a page of four. -/
theorem transferPayload_reads_on :
    ¬ CopiesReceived 0x80100000 0x80200000 8192
      (transferPayload onesPage 0x80100000 0x80200000 8192) := by
  intro copies
  have header : popSize onesPage (0x80100000 + BitVec.ofNat 32 networkFrameHeaderSize) =
      0xffffffff := by decide
  obtain ⟨read, -, -⟩ := transferPayload_touched onesPage 0x80100000 0x80200000 header
    (show (8192 : BitVec 32).toNat < 2147483648 by decide)
  have past := copies.read _ (by
    rw [read]
    exact mem_span.2 ⟨4076, by decide, rfl⟩)
  exact absurd past.2 (by decide)

end Buenos.Net
