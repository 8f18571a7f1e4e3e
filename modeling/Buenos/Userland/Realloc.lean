/-
# Userland.Realloc -- realloc and what it copies

`realloc` allocates, copies as many bytes as are asked for, and frees.  The copy does not
know how long the old block is: when a block grows it reads on behind it.
-/
import Buenos.Userland.Requests

namespace Buenos.Userland

open Buenos.Theory

set_option autoImplicit false

/-- The copying loop, `n` bytes from `old` to `new`; it notes the addresses it reads. -/
def copyBytes : Nat → BitVec 32 → BitVec 32 → Heap → Heap × List Nat
  | 0, _, _, h => (h, [])
  | n + 1, new, old, h =>
      let copied := copyBytes n (new + 1) (old + 1)
        { h with mem := Function.update h.mem new.toNat (h.mem old.toNat) }
      (copied.1, old.toNat :: copied.2)

/-- The heap, what is returned, and the addresses of the bytes that were read to be copied. -/
def realloc (h : Heap) (ptr size : BitVec 32) : Option (Heap × BitVec 32 × List Nat) :=
  if ptr = 0 then (malloc h size).map fun (h, new) => (h, new, [])
  else if size = 0 then (free h ptr).map fun h => (h, 0, [])
  else do
    let (h, new) ← malloc h size
    if new ≠ 0 then
      let (h, read) := copyBytes size.toNat new ptr h
      let h ← free h ptr
      some (h, new, read)
    else some (h, new, [])

/-- The bytes of a block in use that the program may use. -/
def usable (h : Heap) (l : Live) : Nat := (blockOf h l).size - 4

/-- The first `n` bytes behind a pointer are those that another pointer had in `h`. -/
def Copied (h h' : Heap) (old new : BitVec 32) (n : Nat) : Prop :=
  ∀ i < n, h'.mem (new.toNat + i) = h.mem (old.toNat + i)

/-- What a call for the block of `l` should do: nothing, or move the block. -/
structure Moved (base : Nat) (s : State) (l : Live) (size : BitVec 32)
    (result : Heap × BitVec 32 × List Nat) : Prop where
  /-- The bytes that are read are those of the block. -/
  reads : ∀ x ∈ result.2.2, l.ptr.toNat ≤ x ∧ x < l.ptr.toNat + usable s.heap l
  others : ∀ m ∈ s.live.eraseP fun m => m.ptr = l.ptr,
    Copied s.heap result.1 m.ptr m.ptr (usable s.heap m)
  outcome :
    (result.2.1 = 0 ∧ (∃ blocks, Sound base { s with heap := result.1 } blocks) ∧
        Copied s.heap result.1 l.ptr l.ptr (usable s.heap l)) ∨
      (result.2.1 ≠ 0 ∧
        (∃ blocks, Sound base
          { heap := result.1
            live := { ptr := result.2.1, request := size } ::
              s.live.eraseP fun m => m.ptr = l.ptr } blocks) ∧
        Copied s.heap result.1 l.ptr result.2.1 (min (usable s.heap l) size.toNat))

def ReallocMoves (base : Nat) (s : State) (l : Live) (size : BitVec 32) : Prop :=
  ∃ result, realloc s.heap l.ptr size = some result ∧ Moved base s l size result

/-! ## The copying loop -/

section Copy

variable {h : Heap} {new old : BitVec 32}

/-- The next address, where the loop does not reach the end of memory. -/
theorem toNat_next {p : BitVec 32} (room : p.toNat + 1 < 4294967296) :
    (p + 1).toNat = p.toNat + 1 := toNat_add_of_lt room

/-- Every byte up to the last one is read. -/
theorem copyBytes_read (n : Nat) {i : Nat} (less : i < n) (room : old.toNat + i < 4294967296) :
    old.toNat + i ∈ (copyBytes n new old h).2 := by
  induction n generalizing i new old h with
  | zero => omega
  | succ n ih =>
      rw [copyBytes]
      cases i with
      | zero => exact List.mem_cons_self
      | succ i =>
          have next := toNat_next (p := old) (by omega)
          refine List.mem_cons_of_mem _ ?_
          rw [show old.toNat + (i + 1) = (old + 1).toNat + i by omega]
          exact ih (by omega) (by omega)

theorem copyBytes_reads (n : Nat) {x : Nat} (room : old.toNat + n < 4294967296)
    (read : x ∈ (copyBytes n new old h).2) : old.toNat ≤ x ∧ x < old.toNat + n := by
  induction n generalizing new old h with
  | zero => cases read
  | succ n ih =>
      have next := toNat_next (p := old) (by omega)
      rw [copyBytes] at read
      rcases List.mem_cons.1 read with rfl | later
      · omega
      · have := ih (by omega) later
        omega

theorem copyBytes_outside (n : Nat) {x : Nat} (room : new.toNat + n < 4294967296)
    (outside : x < new.toNat ∨ new.toNat + n ≤ x) :
    (copyBytes n new old h).1.mem x = h.mem x := by
  induction n generalizing new old h with
  | zero => rfl
  | succ n ih =>
      have next := toNat_next (p := new) (by omega)
      rw [copyBytes, ih (by omega) (by omega)]
      exact Function.update_of_ne (by omega) _ _

/-- Between blocks that do not overlap the bytes are copied. -/
theorem copyBytes_copied (n : Nat) (room : new.toNat + n < 4294967296)
    (room' : old.toNat + n < 4294967296)
    (apart : new.toNat + n ≤ old.toNat ∨ old.toNat + n ≤ new.toNat) :
    Copied h (copyBytes n new old h).1 old new n := by
  induction n generalizing new old h with
  | zero => exact fun i less => absurd less (Nat.not_lt_zero i)
  | succ n ih =>
      intro i less
      have nextNew := toNat_next (p := new) (by omega)
      have nextOld := toNat_next (p := old) (by omega)
      rw [copyBytes]
      cases i with
      | zero =>
          rw [copyBytes_outside n (by omega) (by omega)]
          exact Function.update_self _ _ _
      | succ i =>
          let h₁ : Heap := { h with mem := Function.update h.mem new.toNat (h.mem old.toNat) }
          have rest : Copied h₁ (copyBytes n (new + 1) (old + 1) h₁).1 (old + 1) (new + 1) n :=
            ih (by omega) (by omega) (by omega)
          have copied := rest i (by omega)
          rw [show new.toNat + (i + 1) = (new + 1).toNat + i by omega, copied,
            show old.toNat + (i + 1) = (old + 1).toNat + i by omega]
          exact Function.update_of_ne (by omega) _ _

/-- Copying to bytes that were asked for is a run of writes. -/
theorem copyBytes_sound (n : Nat) {base : Nat} {s : State} {blocks : List Block}
    (sound : Sound base s blocks) {l : Live} (live : l ∈ s.live) (above : l.ptr.toNat ≤ new.toNat)
    (below : new.toNat + n ≤ l.ptr.toNat + l.request.toNat)
    (room : new.toNat + n < 4294967296) :
    ∃ blocks', Sound base { s with heap := (copyBytes n new old s.heap).1 } blocks' := by
  induction n generalizing new old s blocks with
  | zero => exact ⟨blocks, sound⟩
  | succ n ih =>
      have next := toNat_next (p := new) (by omega)
      have wrote : ∃ t blocks', step s (.write new.toNat (s.heap.mem old.toNat)) = some t ∧
          Sound base t blocks' := write_sound sound ⟨l, live, above, by omega⟩
      obtain ⟨t, blocks', written, sound'⟩ := wrote
      obtain rfl := Option.some.inj written
      exact ih sound' live (by omega) (by omega) (by omega)

end Copy

/-! ## The call -/

section Calls

variable {base : Nat} {s : State} {blocks : List Block} {l m : Live} {size : BitVec 32}

/-- A byte of a block that none of the written blocks overlaps is kept. -/
theorem Keeps.at_apart {h h' : Heap} {written : List Block} {b : Block} {x : Nat}
    (keeps : Keeps h h' written) (apart : ∀ c ∈ written, c.Apart b) (above : b.addr ≤ x)
    (below : x < b.stop) : h'.mem x = h.mem x := by
  refine keeps x fun c member => ?_
  have away := apart c member
  simp only [Block.Apart] at away
  omega

/-- The bytes that may be used are those behind the header. -/
theorem Serves.usable {h : Heap} (serves : Serves base h l) {i : Nat} (less : i < usable h l) :
    (blockOf h l).addr ≤ l.ptr.toNat + i ∧ l.ptr.toNat + i < (blockOf h l).stop := by
  have payload := serves.payload
  unfold Userland.usable at less
  simp only [Block.stop]
  omega

/-- The blocks of what stays in use when `l` is freed. -/
theorem Sound.erased (sound : Sound base s blocks) (live : l ∈ s.live)
    (other : m ∈ s.live.eraseP fun m => m.ptr = l.ptr) :
    m ∈ s.live ∧ (blockOf s.heap l).Apart (blockOf s.heap m) := by
  obtain ⟨freed, before, after, -, here, split, erased⟩ :=
    List.exists_of_eraseP (p := fun m : Live => m.ptr = l.ptr) live (by simp)
  have block : blockOf s.heap l = blockOf s.heap freed := by
    rw [blockOf, ← of_decide_eq_true here, blockOf]
  rw [erased] at other
  have parts := (List.pairwise_append.1 sound.parts.apart).2.1
  rw [split, List.map_append, List.map_cons, List.pairwise_append, List.pairwise_cons] at parts
  obtain ⟨-, ⟨behind, -⟩, across⟩ := parts
  rw [split, block]
  rcases List.mem_append.1 other with early | late
  · exact ⟨List.mem_append_left _ early,
      (across _ (List.mem_map_of_mem early) _ List.mem_cons_self).symm⟩
  · exact ⟨List.mem_append_right _ (List.mem_cons_of_mem _ late),
      behind _ (List.mem_map_of_mem late)⟩

/-- A call that finds no room changes nothing. -/
theorem moved_null (sound : Sound base s blocks) : Moved base s l size (s.heap, 0, []) where
  reads x read := by cases read
  others _ _ _ _ := rfl
  outcome := .inl ⟨rfl, ⟨blocks, sound⟩, fun _ _ => rfl⟩

/-- A new block that is no longer than the old one has its bytes after the copy, and nothing
in use has changed. -/
theorem malloc_copied (start : 0 < base) (room : base + 256 ≤ 2147483648)
    (sound : Sound base s blocks) (live : l ∈ s.live) (fits : size.toNat ≤ usable s.heap l)
    {h : Heap} {new : BitVec 32} (ran : malloc s.heap size = some (h, new)) (some_ : new ≠ 0) :
    new.toNat + size.toNat < 4294967296 ∧
      (∃ blocks', Sound base
        { heap := (copyBytes size.toNat new l.ptr h).1, live := ⟨new, size⟩ :: s.live } blocks') ∧
      Copied s.heap (copyBytes size.toNat new l.ptr h).1 l.ptr new size.toNat ∧
      ∀ m ∈ s.live, ∀ x, (blockOf s.heap m).addr ≤ x → x < (blockOf s.heap m).stop →
        (copyBytes size.toNat new l.ptr h).1.mem x = s.heap.mem x := by
  have serves := sound.serves l live
  have lowL := serves.inside.low
  have highL := serves.inside.high
  have payload := serves.payload
  have fits' := fits
  unfold usable at fits'
  obtain ⟨t, blocks₁, taken, sound₁, keeps⟩ :=
    malloc_sound_keeps start (by omega) sound (show size.toNat < 2147483648 by omega)
  obtain ⟨result, ran', rfl⟩ := Option.map_eq_some_iff.1 taken
  obtain rfl := Option.some.inj (ran.symm.trans ran')
  have list : returned s.live new size = ⟨new, size⟩ :: s.live := by
    rw [returned, if_neg some_]
  simp only [list] at sound₁ keeps
  have fresh := sound₁.serves ⟨new, size⟩ List.mem_cons_self
  have lowN := fresh.inside.low
  have highN := fresh.inside.high
  have payloadN := fresh.payload
  have enough := fresh.enough
  simp only at payloadN enough lowN highN
  have space : new.toNat + size.toNat < 4294967296 := by omega
  have same : ∀ m ∈ s.live, blockOf h m = blockOf s.heap m := fun m member =>
    blockOf_keeps keeps (sound.serves m member).inside fun c free => sound.apart free member
  -- the new block overlaps no block in use
  have apart : ∀ m ∈ s.live, (blockOf h ⟨new, size⟩).Apart (blockOf s.heap m) := fun m member => by
    rw [← same m member]
    exact (List.pairwise_cons.1 (List.pairwise_append.1 sound₁.parts.apart).2.1).1 _
      (List.mem_map_of_mem member)
  have kept : ∀ m ∈ s.live, ∀ x, (blockOf s.heap m).addr ≤ x → x < (blockOf s.heap m).stop →
      h.mem x = s.heap.mem x := fun m member x above below =>
    keeps.at_apart (fun c free => sound.apart free member) above below
  refine ⟨space, copyBytes_sound size.toNat sound₁ List.mem_cons_self (Nat.le_refl _)
    (Nat.le_refl _) space, fun i less => ?_, fun m member x above below => ?_⟩
  · have away := apart l live
    obtain ⟨first, last⟩ := serves.usable (i := i) (by omega)
    simp only [Block.Apart, Block.stop] at away
    rw [copyBytes_copied size.toNat space (by omega) (by omega) i less]
    exact kept l live _ first last
  · have away := apart m member
    simp only [Block.Apart, Block.stop] at away below
    rw [copyBytes_outside size.toNat space (by omega)]
    exact kept m member x above below

/-- Then the old block is freed, and nothing else is written. -/
theorem realloc_fits (start : 0 < base) (room : base + 256 ≤ 2147483648)
    (sound : Sound base s blocks) (live : l ∈ s.live) (nonzero : size ≠ 0)
    (fits : size.toNat ≤ usable s.heap l) {h : Heap} {new : BitVec 32}
    (ran : malloc s.heap size = some (h, new)) (some_ : new ≠ 0) :
    ReallocMoves base s l size := by
  obtain ⟨space, ⟨blocks₂, sound₂⟩, copied, kept⟩ :=
    malloc_copied start room sound live fits ran some_
  let h₂ := (copyBytes size.toNat new l.ptr h).1
  have serves := sound.serves l live
  have lowL := serves.inside.low
  have highL := serves.inside.high
  have payload := serves.payload
  have fits' := fits
  unfold usable at fits'
  have same : ∀ m ∈ s.live, blockOf h₂ m = blockOf s.heap m := fun m member =>
    blockOf_congr fun x above below => kept m member x above (by
      have := (sound.serves m member).inside.large
      simp only [Block.stop]
      omega)
  obtain ⟨u, blocks₃, taken, sound₃, keeps⟩ :=
    free_sound_keeps start sound₂ (List.mem_cons_of_mem _ live) rfl
  obtain ⟨h₃, freed, rfl⟩ := Option.map_eq_some_iff.1 taken
  have serves₂ := sound₂.serves ⟨new, size⟩ List.mem_cons_self
  have apartNew : (blockOf h₂ ⟨new, size⟩).Apart (blockOf h₂ l) :=
    (List.pairwise_cons.1 (List.pairwise_append.1 sound₂.parts.apart).2.1).1 _
      (List.mem_map_of_mem live)
  have other : new ≠ l.ptr := by
    rintro rfl
    have large : 8 ≤ (blockOf h₂ l).size := serves₂.inside.large
    have apart : (blockOf h₂ l).Apart (blockOf h₂ l) := apartNew
    simp only [Block.Apart, Block.stop] at apart
    omega
  have erased : (⟨new, size⟩ :: s.live).eraseP (fun m : Live => m.ptr = l.ptr) =
      ⟨new, size⟩ :: s.live.eraseP fun m => m.ptr = l.ptr := by
    rw [List.eraseP_cons_of_neg (by simpa using other)]
  -- a byte of a block that stays in use
  have stays : ∀ m ∈ (⟨new, size⟩ :: s.live : List Live),
      (blockOf h₂ l).Apart (blockOf h₂ m) → ∀ x, (blockOf h₂ m).addr ≤ x →
        x < (blockOf h₂ m).stop → h₃.mem x = h₂.mem x := fun m member apart x above below => by
    refine keeps.at_apart (fun c written => ?_) above below
    rcases List.mem_cons.1 written with rfl | free
    · exact apart
    · exact sound₂.apart free member
  have ptr : l.ptr ≠ 0 := by
    intro null
    rw [null, show (0 : BitVec 32).toNat = 0 from rfl] at payload
    omega
  refine ⟨(h₃, new, (copyBytes size.toNat new l.ptr h).2), ?_, fun x read => ?_,
    fun m member i less => ?_, .inr ⟨some_, ⟨blocks₃, ?_⟩, fun i less => ?_⟩⟩
  · have freed' : free h₂ l.ptr = some h₃ := freed
    rw [realloc, if_neg ptr, if_neg nonzero, ran]
    simp only [Option.bind_eq_bind, Option.bind_some, if_pos some_]
    rw [show (copyBytes size.toNat new l.ptr h).1 = h₂ from rfl, freed', Option.bind_some]
  · obtain ⟨low, high⟩ := copyBytes_reads size.toNat (by omega) read
    exact ⟨low, by omega⟩
  · obtain ⟨inUse, apart⟩ := sound.erased live member
    obtain ⟨above, below⟩ := (sound.serves m inUse).usable less
    have apart₂ : (blockOf h₂ l).Apart (blockOf h₂ m) := by
      rw [same l live, same m inUse]
      exact apart
    rw [← same m inUse] at above below
    rw [stays m (List.mem_cons_of_mem _ inUse) apart₂ _ above below]
    rw [same m inUse] at above below
    exact kept m inUse _ above below
  · rw [← erased]
    exact sound₃
  · have less' : i < size.toNat := by omega
    have enough : size.toNat + 4 ≤ (blockOf h₂ ⟨new, size⟩).size := serves₂.enough
    have payload₂ : new.toNat = (blockOf h₂ ⟨new, size⟩).addr + 4 := serves₂.payload
    have above : (blockOf h₂ ⟨new, size⟩).addr ≤ new.toNat + i := by
      rw [payload₂]
      omega
    have below : new.toNat + i < (blockOf h₂ ⟨new, size⟩).stop := by
      rw [payload₂, Block.stop]
      omega
    rw [stays ⟨new, size⟩ List.mem_cons_self apartNew.symm _ above below]
    exact copied i less'

/-- The block of a live pointer is in use, so the pointer is not `NULL`. -/
theorem Serves.ptr_ne {h : Heap} (serves : Serves base h l) : l.ptr ≠ 0 := by
  have payload := serves.payload
  intro null
  rw [null, show (0 : BitVec 32).toNat = 0 from rfl] at payload
  omega

/-- With a new block, as many bytes are read as were asked for. -/
theorem ReallocMoves.size_le (moves : ReallocMoves base s l size)
    (room : base + 256 ≤ 2147483648) (sound : Sound base s blocks) (live : l ∈ s.live)
    (positive : 0 < size.toNat) {h : Heap} {new : BitVec 32}
    (ran : malloc s.heap size = some (h, new)) (some_ : new ≠ 0) :
    size.toNat ≤ usable s.heap l := by
  obtain ⟨result, moved, holds⟩ := moves
  have serves := sound.serves l live
  have nonzero : size ≠ 0 := by
    rintro rfl
    exact absurd positive (by decide)
  have low := serves.inside.low
  have high := serves.inside.high
  have payload := serves.payload
  by_contra grows
  rw [realloc, if_neg serves.ptr_ne, if_neg nonzero, ran] at moved
  simp only [Option.bind_eq_bind, Option.bind_some, if_pos some_] at moved
  obtain ⟨h', -, same⟩ := Option.bind_eq_some_iff.1 moved
  obtain rfl := Option.some.inj same
  have bounded : l.ptr.toNat + usable s.heap l < 4294967296 := by
    unfold usable
    omega
  have past := holds.reads _ (copyBytes_read size.toNat (Nat.lt_of_not_le grows) bounded)
  omega

/-- **realloc**, exactly: it moves a block as it should if and only if the block does not grow,
or nothing large enough is free and `malloc` can tell. -/
theorem reallocMoves_iff {heap : BitVec 32} (start : 0 < heap.toNat)
    (room : heap.toNat + HEAP_SIZE.toNat ≤ 2147483648) (sound : Sound heap.toNat s blocks)
    (live : l ∈ s.live) (positive : 0 < size.toNat) :
    ReallocMoves heap.toNat s l size ↔ size.toNat ≤ usable s.heap l ∨
      (Comparable blocks size.toNat ∧ TooLarge blocks size.toNat) := by
  have serves := sound.serves l live
  have ptr := serves.ptr_ne
  have nonzero : size ≠ 0 := by
    rintro rfl
    exact absurd positive (by decide)
  have inside := serves.inside
  have low := inside.low
  have high := inside.high
  have payload := serves.payload
  have enough := serves.enough
  have userSpace : heap.toNat + 256 ≤ 2147483648 := room
  by_cases comparable : Comparable blocks size.toNat
  · rcases malloc_cases start room sound comparable with
      ⟨none_, ran⟩ | ⟨-, fits, h, new, ran, some_⟩
    · refine iff_of_true ⟨_, ?_, moved_null sound⟩ (.inr ⟨comparable, none_.resolve_left nonzero⟩)
      rw [realloc, if_neg ptr, if_neg nonzero, ran]
      rfl
    · refine ⟨fun moves => .inl (moves.size_le userSpace sound live positive ran some_), ?_⟩
      rintro (small | ⟨-, tooLarge⟩)
      · exact realloc_fits start room sound live nonzero small ran some_
      · exact absurd tooLarge fits
  · have large : 2147483648 ≤ size.toNat := by
      by_contra small
      exact comparable (comparable_of_small sound.inside (Nat.lt_of_not_le small))
    rcases malloc_large start room sound large with ⟨yes, -⟩ | ⟨-, h, new, ran, some_⟩
    · exact absurd yes comparable
    · refine ⟨fun moves => .inl (moves.size_le userSpace sound live positive ran some_), ?_⟩
      rintro (small | ⟨yes, -⟩)
      · unfold usable at small
        omega
      · exact absurd yes comparable

end Calls

/-! ## A block that grows -/

/-- Eight bytes in use at the end of the heap. -/
def oneBlock : State :=
  (step freshHeap (.malloc 8)).getD freshHeap

def eightBytes : Live where
  ptr := 4344
  request := 8

theorem oneBlock_sound : Sound 4096 oneBlock [⟨4096, 244⟩] where
  list := by
    have last : oneBlock.heap.next oneBlock.heap.freeList = 0 := by decide +kernel
    exact ⟨by decide +kernel, by decide +kernel, last⟩
  gapped := List.pairwise_singleton _ _
  inside b member := by
    obtain rfl := List.mem_singleton.1 member
    exact ⟨by decide, by decide, by decide⟩
  serves l live := by
    have list : oneBlock.live = [eightBytes] := by decide +kernel
    rw [list] at live
    obtain rfl := List.mem_singleton.1 live
    exact ⟨⟨by decide +kernel, by decide +kernel, by decide +kernel⟩, by decide +kernel,
      by decide +kernel⟩
  parts := by
    have blocks : oneBlock.live.map (blockOf oneBlock.heap) = [⟨4096 + 244, 12⟩] := by
      decide +kernel
    rw [blocks]
    have whole : Partition 4096 (4096 + 256) (⟨4096, 244 + 12⟩ :: []) := freshHeap_sound.parts
    exact whole.split (by decide) (by decide)

/-- Four of the eight bytes are kept. -/
theorem reallocMoves_iff_shrink : ReallocMoves 4096 oneBlock eightBytes 4 := by
  have sound : Sound (4096 : BitVec 32).toNat oneBlock [⟨4096, 244⟩] := oneBlock_sound
  refine (reallocMoves_iff (by decide) (by decide) sound ?_ (by decide)).2 (.inl ?_)
  · decide +kernel
  · decide +kernel

/-- **A block that grows** is copied together with what lies behind it. -/
theorem realloc_grows : Sound 4096 oneBlock [⟨4096, 244⟩] ∧ eightBytes ∈ oneBlock.live ∧
    ¬ ReallocMoves 4096 oneBlock eightBytes 100 := by
  have live : eightBytes ∈ oneBlock.live := by decide +kernel
  refine ⟨oneBlock_sound, live, fun moves => ?_⟩
  have comparable : Comparable [⟨4096, 244⟩] (100 : BitVec 32).toNat :=
    comparable_of_small oneBlock_sound.inside (by decide)
  rcases malloc_cases (by decide) (by decide) oneBlock_sound comparable with
    ⟨zero | tooLarge, -⟩ | ⟨-, -, h, new, ran, some_⟩
  · exact absurd zero (by decide)
  · exact absurd (tooLarge ⟨4096, 244⟩ List.mem_cons_self) (by decide)
  · have small := moves.size_le (by decide) oneBlock_sound live (by decide) ran some_
    exact absurd small (by decide +kernel)

end Buenos.Userland
