/-
# Userland.HeapRuns -- every run of the userland heap

The program calls `malloc` and `free` in any order and writes into the memory it was given.
At every moment the free blocks and the blocks in use, with their headers, partition the
heap, and the free list has the free blocks in the order of their addresses with something
between any two (`heap_sound`).
-/
import Buenos.Theory.Run
import Buenos.Userland.Malloc
import Mathlib.Logic.Function.Basic

namespace Buenos.Userland

open Buenos.Theory

set_option autoImplicit false

/-- What `malloc` returned, and what was asked for. -/
structure Live where
  ptr : BitVec 32
  request : BitVec 32
  deriving DecidableEq

structure State where
  heap : Heap
  live : List Live

inductive Act where
  | malloc (size : BitVec 32)
  | free (ptr : BitVec 32)
  /-- The program writes a byte. -/
  | write (addr : Nat) (value : BitVec 8)

/-- The program keeps what `malloc` returned, unless that is `NULL`. -/
def returned (live : List Live) (ptr size : BitVec 32) : List Live :=
  if ptr = 0 then live else { ptr, request := size } :: live

def step (s : State) : Act → Option State
  | .malloc size =>
      (malloc s.heap size).map fun result =>
        { heap := result.1, live := returned s.live result.2 size }
  | .free ptr =>
      (free s.heap ptr).map fun heap =>
        { heap, live := s.live.eraseP fun l => l.ptr = ptr }
  | .write addr value =>
      some { s with heap := { s.heap with mem := Function.update s.heap.mem addr value } }

/-- Requests below 2^31 bytes, live pointers, and writes to the bytes asked for. -/
def Legal (s : State) : Act → Prop
  | .malloc size => size.toNat < 2147483648
  | .free ptr => ∃ l ∈ s.live, l.ptr = ptr
  | .write addr _ => ∃ l ∈ s.live, l.ptr.toNat ≤ addr ∧ addr < l.ptr.toNat + l.request.toNat

/-- `heap` is the address of the array. -/
def heapSystem (heap : BitVec 32) : System State Act where
  initial s := ∃ before, s = { heap := heapInit heap before, live := [] }
  step := step

/-- The block behind a pointer, as its header says. -/
def blockOf (h : Heap) (l : Live) : Block where
  addr := (l.ptr - 4).toNat
  size := (h.size (l.ptr - 4)).toNat

/-- The pointer is behind the header of a block for at least the bytes asked for. -/
structure Serves (base : Nat) (h : Heap) (l : Live) : Prop where
  inside : InHeap base (blockOf h l)
  payload : l.ptr.toNat = (blockOf h l).addr + 4
  enough : l.request.toNat + 4 ≤ (blockOf h l).size

structure Sound (base : Nat) (s : State) (blocks : List Block) : Prop where
  list : s.heap.Seg s.heap.freeList blocks 0
  gapped : Gapped blocks
  inside : ∀ c ∈ blocks, InHeap base c
  serves : ∀ l ∈ s.live, Serves base s.heap l
  parts : Partition base (base + 256) (blocks ++ s.live.map (blockOf s.heap))

section Steps

variable {base : Nat} {s : State} {blocks : List Block}

theorem Sound.boot {heap : BitVec 32} (before : Heap) :
    Sound heap.toNat { heap := heapInit heap before, live := [] } [⟨heap.toNat, 256⟩] := by
  refine ⟨⟨rfl, ?_, ?_⟩, ?_, ?_, ?_, ?_⟩
  · have header : (heapInit heap before).size heap = HEAP_SIZE :=
      (Heap.size_setNext _ _).trans (Heap.size_setSize _ _)
    exact congrArg BitVec.toNat header
  · exact Heap.next_setNext _ _
  · exact List.pairwise_singleton _ _
  · intro c member
    rw [List.mem_singleton.1 member]
    exact ⟨by simp, Nat.le_refl _, Nat.le_refl _⟩
  · intro l member
    cases member
  · refine ⟨?_, ?_, List.pairwise_singleton _ _, ?_⟩
    · intro c member
      rw [List.mem_singleton.1 member]
      exact ⟨Nat.le_refl _, Nat.le_refl _⟩
    · intro c member
      rw [List.mem_singleton.1 member]
      simp
    · intro x above below
      exact ⟨_, List.mem_cons_self, above, below⟩

theorem blockOf_congr {h h' : Heap} {l : Live}
    (same : ∀ x, (blockOf h l).addr ≤ x → x < (blockOf h l).addr + 4 → h'.mem x = h.mem x) :
    blockOf h' l = blockOf h l := by
  have header : h'.size (l.ptr - 4) = h.size (l.ptr - 4) := loadWord_congr same
  rw [blockOf, header, blockOf]

/-- The headers of blocks outside those that are written stay. -/
theorem blockOf_keeps {h h' : Heap} {written : List Block} {l : Live} (keeps : Keeps h h' written)
    (inside : InHeap base (blockOf h l)) (apart : ∀ c ∈ written, c.Apart (blockOf h l)) :
    blockOf h' l = blockOf h l := by
  refine blockOf_congr fun x above below => keeps x fun c member => ?_
  have away := apart c member
  have large := inside.large
  simp only [Block.Apart, Block.stop] at away ⊢
  omega

theorem Serves.congr {h h' : Heap} {l : Live} (serves : Serves base h l)
    (same : blockOf h' l = blockOf h l) : Serves base h' l := by
  refine ⟨?_, ?_, ?_⟩
  · rw [same]
    exact serves.inside
  · rw [same]
    exact serves.payload
  · rw [same]
    exact serves.enough

/-- The blocks in use stay what they are when none of their bytes is written. -/
theorem map_blockOf {h h' : Heap} {written : List Block} {live : List Live}
    (keeps : Keeps h h' written) (serves : ∀ l ∈ live, Serves base h l)
    (apart : ∀ c ∈ written, ∀ l ∈ live, c.Apart (blockOf h l)) :
    live.map (blockOf h') = live.map (blockOf h) ∧ ∀ l ∈ live, Serves base h' l := by
  have same : ∀ l ∈ live, blockOf h' l = blockOf h l := fun l member =>
    blockOf_keeps keeps (serves l member).inside fun c written => apart c written l member
  exact ⟨List.map_congr_left same, fun l member => (serves l member).congr (same l member)⟩

theorem Sound.apart (sound : Sound base s blocks) {c : Block} (member : c ∈ blocks) {l : Live}
    (live : l ∈ s.live) : c.Apart (blockOf s.heap l) :=
  (List.pairwise_append.1 sound.parts.apart).2.2 c member _ (List.mem_map_of_mem live)

/-- `malloc` writes nothing but bytes of free blocks. -/
theorem malloc_sound_keeps (start : 0 < base) (room : base + 256 ≤ 4294967296)
    (sound : Sound base s blocks) {size : BitVec 32} (small : size.toNat < 2147483648) :
    ∃ t blocks', step s (.malloc size) = some t ∧ Sound base t blocks' ∧
      Keeps s.heap t.heap blocks := by
  by_cases nothing : size = 0
  · refine ⟨s, blocks, ?_, sound, fun _ _ => rfl⟩
    simp [step, malloc, nothing, returned]
  · rcases malloc_spec start room nothing small sound.list sound.gapped sound.inside sound.parts with
      ⟨-, ran⟩ | ⟨h', newBlock, live, blocks', ran, addr, liveSize, enough, inside, seg, gapped, insides,
        parts, keeps⟩
    · refine ⟨s, blocks, ?_, sound, fun _ _ => rfl⟩
      simp [step, ran, returned]
    · obtain ⟨same, serves⟩ := map_blockOf keeps sound.serves fun c member l live =>
        sound.apart member live
      have four : (4 : BitVec 32).toNat = 4 := rfl
      have low := inside.low
      have high := inside.high
      have large := inside.large
      have ptr : (newBlock + 4).toNat = live.addr + 4 := by
        rw [toNat_add_of_lt (by rw [addr, four]; omega), addr, four]
      have nonzero : newBlock + 4 ≠ 0 := by
        intro zero
        rw [zero] at ptr
        have : (0 : BitVec 32).toNat = 0 := rfl
        omega
      have header : newBlock + 4 - 4 = newBlock := BitVec.add_sub_cancel _ _
      have block : blockOf h' ⟨newBlock + 4, size⟩ = live := by
        rw [blockOf, header, addr, liveSize]
      have rounded := toNat_roundSize small
      refine ⟨{ heap := h', live := ⟨newBlock + 4, size⟩ :: s.live }, blocks', ?_,
        ⟨seg, gapped, insides, ?_, ?_⟩, keeps⟩
      · rw [step, ran, Option.map_some, returned, if_neg nonzero]
      · intro l member
        rcases List.mem_cons.1 member with rfl | old
        · refine ⟨?_, ?_, ?_⟩
          · rw [block]
            exact inside
          · rw [block]
            exact ptr
          · rw [block]
            have less := enough
            simp only
            omega
        · exact serves l old
      · rw [List.map_cons, block, same]
        exact parts

theorem malloc_sound (start : 0 < base) (room : base + 256 ≤ 4294967296)
    (sound : Sound base s blocks) {size : BitVec 32} (small : size.toNat < 2147483648) :
    ∃ t blocks', step s (.malloc size) = some t ∧ Sound base t blocks' := by
  obtain ⟨t, blocks', taken, sound', -⟩ := malloc_sound_keeps start room sound small
  exact ⟨t, blocks', taken, sound'⟩

/-- `free` writes nothing but bytes of free blocks and of the block that is freed. -/
theorem free_sound_keeps (start : 0 < base) (sound : Sound base s blocks) {ptr : BitVec 32}
    {l : Live} (member : l ∈ s.live) (same : l.ptr = ptr) :
    ∃ t blocks', step s (.free ptr) = some t ∧ Sound base t blocks' ∧
      Keeps s.heap t.heap (blockOf s.heap l :: blocks) := by
  obtain ⟨freed, before, after, -, here, split, erased⟩ :=
    List.exists_of_eraseP (p := fun l : Live => l.ptr = ptr) member (by simpa using same)
  simp only [decide_eq_true_eq] at here
  subst here
  have block : blockOf s.heap l = blockOf s.heap freed := by
    rw [blockOf, same, blockOf]
  have freedIn : freed ∈ s.live := by
    rw [split]
    simp
  have others : ∀ l ∈ before ++ after, l ∈ s.live := by
    intro l member
    rw [split]
    simp only [List.mem_append, List.mem_cons] at member ⊢
    tauto
  have serves := sound.serves freed freedIn
  have moved : (blocks ++ s.live.map (blockOf s.heap)).Perm
      (blocks ++ blockOf s.heap freed :: (before ++ after).map (blockOf s.heap)) := by
    have middle : (before.map (blockOf s.heap) ++ blockOf s.heap freed ::
        after.map (blockOf s.heap)).Perm (blockOf s.heap freed ::
          (before.map (blockOf s.heap) ++ after.map (blockOf s.heap))) := List.perm_middle
    rw [split]
    simpa using middle.append_left blocks
  have parts := sound.parts.perm moved
  obtain ⟨-, rest, -⟩ := List.pairwise_append.1 parts.apart
  obtain ⟨h', blocks', ran, seg, gapped, insides, parts', keeps⟩ :=
    free_spec start sound.list sound.gapped sound.inside serves.inside
      (fun c member => sound.apart member freedIn) rfl rfl parts
  obtain ⟨same, serves'⟩ := map_blockOf keeps (fun l member => sound.serves l (others l member))
    (by
      intro c written l member
      rcases List.mem_cons.1 written with rfl | old
      · exact (List.pairwise_cons.1 rest).1 _ (List.mem_map_of_mem member)
      · exact sound.apart old (others l member))
  refine ⟨{ heap := h', live := before ++ after }, blocks', ?_,
    ⟨seg, gapped, insides, serves', ?_⟩, by rw [block]; exact keeps⟩
  · rw [step, ran, erased]
    rfl
  · rw [same]
    exact parts'

theorem free_sound (start : 0 < base) (sound : Sound base s blocks) {ptr : BitVec 32}
    (live : ∃ l ∈ s.live, l.ptr = ptr) :
    ∃ t blocks', step s (.free ptr) = some t ∧ Sound base t blocks' := by
  obtain ⟨l, member, same⟩ := live
  obtain ⟨t, blocks', taken, sound', -⟩ := free_sound_keeps start sound member same
  exact ⟨t, blocks', taken, sound'⟩

theorem write_sound (sound : Sound base s blocks) {addr : Nat} {value : BitVec 8}
    (inside : ∃ l ∈ s.live, l.ptr.toNat ≤ addr ∧ addr < l.ptr.toNat + l.request.toNat) :
    ∃ t blocks', step s (.write addr value) = some t ∧ Sound base t blocks' := by
  obtain ⟨l, member, above, below⟩ := inside
  have serves := sound.serves l member
  have payload := serves.payload
  have enough := serves.enough
  -- The byte is in the block of `l`, behind its header.
  have kept : ∀ x, x ≠ addr → (Function.update s.heap.mem addr value) x = s.heap.mem x :=
    fun x other => Function.update_of_ne other _ _
  have away : ∀ c : Block, c.Apart (blockOf s.heap l) → ∀ x, c.addr ≤ x → x < c.stop → x ≠ addr := by
    rintro c apart x from_ upto rfl
    simp only [Block.Apart, Block.stop] at apart upto
    omega
  have pairs := (List.pairwise_append.1 sound.parts.apart).2.1
  have same : ∀ m ∈ s.live,
      blockOf { s.heap with mem := Function.update s.heap.mem addr value } m = blockOf s.heap m := by
    intro m live
    refine blockOf_congr fun x from_ upto => kept x ?_
    have large := (sound.serves m live).inside.large
    by_cases own : blockOf s.heap m = blockOf s.heap l
    · rw [own] at upto
      omega
    · refine away _ (pairs.forall (List.mem_map_of_mem live) (List.mem_map_of_mem member) own) x from_ ?_
      simp only [Block.stop]
      omega
  refine ⟨_, blocks, rfl, ?_, sound.gapped, sound.inside,
    fun m live => (sound.serves m live).congr (same m live), ?_⟩
  · refine Heap.Seg.congr sound.list fun c free x from_ upto => kept x ?_
    have large := (sound.inside c free).large
    refine away c (sound.apart free member) x from_ ?_
    simp only [Block.stop]
    omega
  · rw [List.map_congr_left same]
    exact sound.parts

theorem step_sound (start : 0 < base) (room : base + 256 ≤ 4294967296) (sound : Sound base s blocks)
    {act : Act} (legal : Legal s act) : ∃ t blocks', step s act = some t ∧ Sound base t blocks' := by
  cases act with
  | malloc size => exact malloc_sound start room sound legal
  | free ptr => exact free_sound start sound legal
  | write addr value => exact write_sound sound legal

end Steps

/-! ## Every run -/

variable {heap : BitVec 32}

theorem reachable_sound (start : 0 < heap.toNat)
    (room : heap.toNat + HEAP_SIZE.toNat ≤ 4294967296) {s : State}
    (reached : (heapSystem heap).ReachableWhen Legal s) : ∃ blocks, Sound heap.toNat s blocks := by
  refine reached.invariant (I := fun s => ∃ blocks, Sound heap.toNat s blocks) ?_ ?_
  · rintro s ⟨before, rfl⟩
    exact ⟨_, Sound.boot before⟩
  · rintro s act t ⟨blocks, sound⟩ legal taken
    obtain ⟨t', blocks', taken', next⟩ := step_sound start room sound legal
    have same : some t = some t' := taken.symm.trans taken'
    cases same
    exact ⟨blocks', next⟩

/-- **The userland heap.**  In every run, the free list has its blocks in the order of their
addresses with something between any two, none smaller than the bookkeeping; the free blocks
and the blocks in use partition the heap; every pointer in use is behind the header of a
block for the bytes asked for; `malloc` fails only when no free block can hold the rounded
request and a header; when nothing is in use, all of the heap is one free block; and the
next call returns. -/
theorem heap_sound (start : 0 < heap.toNat) (room : heap.toNat + HEAP_SIZE.toNat ≤ 4294967296)
    {s : State} (reached : (heapSystem heap).ReachableWhen Legal s) :
    ∃ blocks, s.heap.Seg s.heap.freeList blocks 0 ∧ Gapped blocks ∧
      (∀ c ∈ blocks, MIN_ALLOC_SIZE.toNat ≤ c.size) ∧
      Partition heap.toNat (heap.toNat + HEAP_SIZE.toNat)
        (blocks ++ s.live.map (blockOf s.heap)) ∧
      (∀ l ∈ s.live, l.ptr.toNat = (blockOf s.heap l).addr + 4 ∧
        l.request.toNat + 4 ≤ (blockOf s.heap l).size) ∧
      (∀ size h', 0 < size.toNat → size.toNat < 2147483648 → malloc s.heap size = some (h', 0) →
        ∀ c ∈ blocks, c.size < (roundSize size).toNat + 4) ∧
      (s.live = [] → blocks = [⟨heap.toNat, HEAP_SIZE.toNat⟩]) ∧
      ∀ act, Legal s act → ∃ t, (heapSystem heap).step s act = some t := by
  obtain ⟨blocks, sound⟩ := reachable_sound start room reached
  refine ⟨blocks, sound.list, sound.gapped, fun c member => (sound.inside c member).large,
    sound.parts, fun l live => ⟨(sound.serves l live).payload, (sound.serves l live).enough⟩, ?_, ?_, ?_⟩
  · intro size h' positive small ran
    have nonzero : size ≠ 0 := by
      rintro rfl
      exact absurd positive (by decide)
    rcases malloc_spec start room nonzero small sound.list sound.gapped sound.inside sound.parts with
      ⟨none_, -⟩ | ⟨h'', newBlock, live, -, ran', addr, -, -, inside, -⟩
    · exact none_
    · -- A block that was found is not at address zero.
      have same : some (h', (0 : BitVec 32)) = some (h'', newBlock + 4) := ran.symm.trans ran'
      simp only [Option.some.injEq, Prod.mk.injEq] at same
      have four : (4 : BitVec 32).toNat = 4 := rfl
      have high := inside.high
      have large := inside.large
      have size_ : HEAP_SIZE.toNat = 256 := rfl
      have ptr : (newBlock + 4).toNat = live.addr + 4 := by
        rw [toNat_add_of_lt (by rw [addr, four]; omega), addr, four]
      rw [← same.2] at ptr
      have zero : (0 : BitVec 32).toNat = 0 := rfl
      omega
  · intro empty
    have parts := sound.parts
    rw [empty, List.map_nil, List.append_nil] at parts
    have one := parts.single sound.gapped (by omega)
    rw [one, Nat.add_sub_cancel_left]
    rfl
  · intro act legal
    obtain ⟨t, -, taken, -⟩ := step_sound start room sound legal
    exact ⟨t, taken⟩

/-- A heap at 4096. -/
def heapBoot : State := { heap := heapInit 4096 ⟨0, fun _ => 0⟩, live := [] }

/-- Two requests, and the first block is given back. -/
theorem heapBoot_ran :
    ∃ s t u, (heapSystem 4096).exec heapBoot [.malloc 10, .malloc 20] = some s ∧
      s.live = [⟨4316, 20⟩, ⟨4340, 10⟩] ∧
      (heapSystem 4096).step s (.free 4340) = some t ∧ t.live = [⟨4316, 20⟩] ∧
      (heapSystem 4096).step t (.free 4316) = some u ∧ u.live = [] := by
  have ran : (((heapSystem 4096).exec heapBoot [.malloc 10, .malloc 20]).bind fun s =>
      ((heapSystem 4096).step s (.free 4340)).bind fun t =>
        ((heapSystem 4096).step t (.free 4316)).map fun u => (s.live, t.live, u.live)) =
      some ([⟨4316, 20⟩, ⟨4340, 10⟩], [⟨4316, 20⟩], []) := by decide +kernel
  obtain ⟨s, taken, ran⟩ := Option.bind_eq_some_iff.1 ran
  obtain ⟨t, freed, ran⟩ := Option.bind_eq_some_iff.1 ran
  obtain ⟨u, freed', lives⟩ := Option.map_eq_some_iff.1 ran
  simp only [Prod.mk.injEq] at lives
  exact ⟨s, t, u, taken, lives.1, freed, lives.2.1, freed', lives.2.2⟩

/-- With one of two blocks given back the heap is still divided up, and with both it is whole. -/
theorem heap_sound_two :
    ∃ s t u, (heapSystem 4096).exec heapBoot [.malloc 10, .malloc 20] = some s ∧
      (heapSystem 4096).step s (.free 4340) = some t ∧ t.live = [⟨4316, 20⟩] ∧
      (∃ blocks, Partition 4096 4352 (blocks ++ t.live.map (blockOf t.heap))) ∧
      (heapSystem 4096).step t (.free 4316) = some u ∧
      u.heap.Seg u.heap.freeList [⟨4096, 256⟩] 0 := by
  obtain ⟨s, t, u, taken, live, freed, live', freed', empty⟩ := heapBoot_ran
  have start : (heapSystem 4096).ReachableWhen Legal heapBoot := .start ⟨_, rfl⟩
  have legal : ∀ act ∈ [Act.malloc 10, .malloc 20], ∀ s, Legal s act := by
    intro act member s
    simp only [List.mem_cons, List.not_mem_nil, or_false] at member
    rcases member with rfl | rfl
    · exact (by decide : (10 : BitVec 32).toNat < 2147483648)
    · exact (by decide : (20 : BitVec 32).toNat < 2147483648)
  have first : Legal s (.free 4340) := ⟨⟨4340, 10⟩, by rw [live]; decide, rfl⟩
  have second : Legal t (.free 4316) := ⟨⟨4316, 20⟩, by rw [live']; decide, rfl⟩
  have one := (start.exec (System.guarded_of_forall legal _) taken).step first freed
  obtain ⟨blocks, -, -, -, parts, -⟩ := heap_sound (by decide) (by decide) one
  obtain ⟨_, list, -, -, -, -, -, whole, -⟩ :=
    heap_sound (by decide) (by decide) (one.step second freed')
  rw [whole empty] at list
  exact ⟨s, t, u, taken, freed, live', ⟨blocks, parts⟩, freed', list⟩

end Buenos.Userland
