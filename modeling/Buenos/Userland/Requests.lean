/-
# Userland.Requests -- malloc and calloc for any size

What `malloc` and `calloc` do with sizes of all 32 bits.  Up to 2^31 the arithmetic of
`malloc` is that of the integers; above, rounding up, the header and the comparison of
differences wrap, and the first free block that is small enough against the request is taken
for one to split.  `calloc` multiplies modulo 2^32 before it allocates.

The heap lies in user space, below address 0x80000000.
-/
import Buenos.Userland.HeapRuns

namespace Buenos.Userland

open Buenos.Theory

set_option autoImplicit false

/-- The loop of `calloc`: `n` bytes from `ptr` on are set to zero. -/
def zeroBytes : Nat → BitVec 32 → Heap → Heap
  | 0, _, h => h
  | n + 1, ptr, h =>
      zeroBytes n (ptr + 1) { h with mem := Function.update h.mem ptr.toNat 0 }

def calloc (h : Heap) (nmemb size : BitVec 32) : Option (Heap × BitVec 32) :=
  (malloc h (nmemb * size)).map fun (h, ptr) =>
    if ptr ≠ 0 then (zeroBytes (nmemb * size).toNat ptr h, ptr) else (h, ptr)

/-- A request of `n` bytes with room for bookkeeping, in whole words, over the integers. -/
def rounded (n : Nat) : Nat := (max 8 n + 3) / 4 * 4

/-- The result of a call for `bytes` bytes: `NULL`, or a pointer behind the header of a block
for as many bytes, in the heap and apart from those in use.  The free list is well formed. -/
def Served (base : Nat) (s : State) (size : BitVec 32) (bytes : Nat)
    (result : Heap × BitVec 32) : Prop :=
  (∃ blocks, Sound base { heap := result.1, live := returned s.live result.2 size } blocks) ∧
    (result.2 ≠ 0 → bytes + 4 ≤ (blockOf result.1 ⟨result.2, size⟩).size)

def MallocServes (base : Nat) (s : State) (size : BitVec 32) : Prop :=
  ∃ result, malloc s.heap size = some result ∧ Served base s size size.toNat result

/-- The size of the block is that of the product over the integers, and the bytes are zero. -/
def CallocServes (base : Nat) (s : State) (nmemb size : BitVec 32) : Prop :=
  ∃ result, calloc s.heap nmemb size = some result ∧
    Served base s (nmemb * size) (nmemb.toNat * size.toNat) result ∧
      (result.2 ≠ 0 → ∀ i < nmemb.toNat * size.toNat, result.1.mem (result.2.toNat + i) = 0)

/-- No free block is so small against the request that the difference of the two wraps to a
positive number. -/
def Comparable (blocks : List Block) (n : Nat) : Prop :=
  ∀ b ∈ blocks, rounded n + 3 < 2147483648 + b.size

/-- No free block has room for the request and a header. -/
def TooLarge (blocks : List Block) (n : Nat) : Prop := ∀ b ∈ blocks, b.size < rounded n + 4

/-! ## malloc above 2^31 -/

section Large

variable {h : Heap} {base : Nat} {size block : BitVec 32} {blocks : List Block}

theorem roundSize_rounded (size : BitVec 32) :
    (roundSize size).toNat = rounded size.toNat % 4294967296 := toNat_roundSize_mod size

/-- A block is taken for large enough exactly when the difference wraps. -/
theorem taken_iff (size held : BitVec 32) (large : 8 ≤ held.toNat) (small : held.toNat ≤ 256)
    (high : 2147483648 ≤ rounded size.toNat) :
    ((MIN_ALLOC_SIZE + 4).toInt ≤ (held - roundSize size - 4).toInt ∨ roundSize size + 4 ≤ held) ↔
      2147483648 + held.toNat ≤ rounded size.toNat + 3 := by
  have least : (MIN_ALLOC_SIZE + 4).toInt = 12 := by decide
  have four : (4 : BitVec 32).toNat = 4 := rfl
  have top := size.isLt
  have request := roundSize_rounded size
  have difference : (held - roundSize size - 4).toNat =
      (held.toNat + 8589934592 - rounded size.toNat % 4294967296 - 4) % 4294967296 := by
    rw [BitVec.toNat_sub, BitVec.toNat_sub, request, four]
    omega
  have sum : (roundSize size + 4).toNat = (rounded size.toNat % 4294967296 + 4) % 4294967296 := by
    rw [BitVec.toNat_add, request, four]
  rw [least, BitVec.toInt_eq_toNat_cond, difference, BitVec.le_def, sum]
  unfold rounded at *
  split
  · omega
  · omega

/-- A block that is taken by mistake is not at the end of memory, so the pointer is not
`NULL`. -/
theorem mistaken_pointer {b : Block} {held : BitVec 32} (room : base + 256 ≤ 2147483648)
    (inside : InHeap base b) (addr : block.toNat = b.addr) (size_ : held.toNat = b.size)
    (wraps : 2147483648 + b.size ≤ rounded size.toNat + 3) :
    block + (held - (roundSize size + 4)) + 4 ≠ 0 ∧ block + 4 ≠ 0 := by
  have request := roundSize_rounded size
  have top := size.isLt
  have four : (4 : BitVec 32).toNat = 4 := rfl
  have zero : (0 : BitVec 32).toNat = 0 := rfl
  obtain ⟨large, low, high⟩ := inside
  constructor
  · intro nil
    have value := congrArg BitVec.toNat nil
    rw [BitVec.toNat_add, BitVec.toNat_add, BitVec.toNat_sub, BitVec.toNat_add, request,
      size_, addr, four, zero] at value
    unfold rounded at *
    omega
  · intro nil
    have value := congrArg BitVec.toNat nil
    rw [BitVec.toNat_add, addr, four, zero] at value
    omega

/-- The loop for a request above 2^31: every block is passed, or one is taken by mistake. -/
theorem mallocFrom_large (room : base + 256 ≤ 2147483648) (high : 2147483648 ≤ rounded size.toNat)
    (turns : Nat) (prev : BitVec 32) (seg : h.Seg block blocks 0) (enough : blocks.length < turns)
    (inside : ∀ c ∈ blocks, InHeap base c) (start : 0 < base) :
    (Comparable blocks size.toNat ∧ mallocFrom (roundSize size) turns h prev block = some (h, 0)) ∨
      (¬ Comparable blocks size.toNat ∧
        ∃ h' ptr, mallocFrom (roundSize size) turns h prev block = some (h', ptr) ∧ ptr ≠ 0) := by
  induction blocks generalizing turns prev block with
  | nil =>
      obtain ⟨turns, rfl⟩ : ∃ n, turns = n + 1 := ⟨turns - 1, by simp at enough; omega⟩
      have zero : block = 0 := seg
      exact .inl ⟨fun b member => absurd member List.not_mem_nil, by rw [mallocFrom, if_pos zero]⟩
  | cons b rest ih =>
      obtain ⟨turns, rfl⟩ : ∃ n, turns = n + 1 := ⟨turns - 1, by omega⟩
      obtain ⟨addr, held, tail⟩ := seg
      have here := inside b List.mem_cons_self
      have low := here.low
      have bound := here.high
      have some_ : block ≠ 0 := by
        rintro rfl
        have zero : (0 : BitVec 32).toNat = 0 := rfl
        omega
      have taken := taken_iff size (h.size block) (by rw [held]; exact here.large)
        (by rw [held]; omega) high
      rw [held] at taken
      by_cases wraps : 2147483648 + b.size ≤ rounded size.toNat + 3
      · obtain ⟨split_, whole⟩ := mistaken_pointer room here addr held wraps
        refine .inr ⟨fun comparable => ?_, ?_⟩
        · have := comparable b List.mem_cons_self
          omega
        · rw [mallocFrom, if_neg some_]
          split
          · refine ⟨_, _, rfl, ?_⟩
            rw [Heap.size_setSize]
            exact split_
          · rename_i unsplit
            rw [if_pos ((taken.2 wraps).resolve_left unsplit)]
            exact ⟨_, _, rfl, whole⟩
      · have skip : mallocFrom (roundSize size) (turns + 1) h prev block =
            mallocFrom (roundSize size) turns h block (h.next block) := by
          have neither := mt taken.1 wraps
          rw [mallocFrom, if_neg some_, if_neg fun go => neither (.inl go),
            if_neg fun go => neither (.inr go)]
        rw [skip]
        have more := ih turns block tail (by simp at enough; omega)
          fun c member => inside c (List.mem_cons_of_mem _ member)
        refine more.imp ?_ ?_
        · rintro ⟨comparable, ran⟩
          refine ⟨fun c member => ?_, ran⟩
          rcases List.mem_cons.1 member with rfl | later
          · omega
          · exact comparable c later
        · rintro ⟨wrong, ran⟩
          exact ⟨fun comparable => wrong fun c member =>
            comparable c (List.mem_cons_of_mem _ member), ran⟩

end Large

section Calls

variable {base : Nat} {s : State} {blocks : List Block} {size : BitVec 32}

theorem comparable_of_small (inside : ∀ c ∈ blocks, InHeap base c) {n : Nat}
    (small : n < 2147483648) : Comparable blocks n := by
  intro b member
  have := (inside b member).large
  unfold rounded
  omega

theorem Sound.length_lt (sound : Sound base s blocks) : blocks.length < HEAP_SIZE.toNat + 2 := by
  have le := sound.gapped.length_le fun c member =>
    ⟨(sound.inside c member).low, (sound.inside c member).high⟩
  have := show HEAP_SIZE.toNat = 256 from rfl
  omega

theorem malloc_large (start : 0 < base) (room : base + 256 ≤ 2147483648)
    (sound : Sound base s blocks) (high : 2147483648 ≤ size.toNat) :
    (Comparable blocks size.toNat ∧ malloc s.heap size = some (s.heap, 0)) ∨
      (¬ Comparable blocks size.toNat ∧
        ∃ h' ptr, malloc s.heap size = some (h', ptr) ∧ ptr ≠ 0) := by
  have nonzero : size ≠ 0 := by
    rintro rfl
    exact absurd high (by decide)
  have above : 2147483648 ≤ rounded size.toNat := by
    unfold rounded
    omega
  rw [malloc, if_neg nonzero]
  exact mallocFrom_large room above _ 0 sound.list sound.length_lt sound.inside start

/-- Below 2^31 every call serves the request. -/
theorem malloc_small (start : 0 < base) (room : base + 256 ≤ 2147483648)
    (sound : Sound base s blocks) (small : size.toNat < 2147483648) :
    MallocServes base s size := by
  obtain ⟨t, blocks', taken, sound'⟩ := malloc_sound start (by omega) sound small
  obtain ⟨result, ran, rfl⟩ := Option.map_eq_some_iff.1 taken
  refine ⟨result, ran, ⟨blocks', sound'⟩, fun some_ => ?_⟩
  refine (sound'.serves ⟨result.2, size⟩ ?_).enough
  rw [returned, if_neg some_]
  exact List.mem_cons_self

/-- A pointer that was served is to a block of the heap. -/
theorem Served.bytes_le {bytes : Nat} {result : Heap × BitVec 32}
    (served : Served base s size bytes result) (some_ : result.2 ≠ 0) : bytes ≤ 252 := by
  obtain ⟨⟨blocks', sound⟩, enough⟩ := served
  have serves := sound.serves ⟨result.2, size⟩ (by
    rw [returned, if_neg some_]
    exact List.mem_cons_self)
  have low := serves.inside.low
  have high := serves.inside.high
  have fits := enough some_
  simp only at low high
  omega

/-- **malloc**, exactly. -/
theorem mallocServes_iff (start : 0 < base) (room : base + 256 ≤ 2147483648)
    (sound : Sound base s blocks) :
    MallocServes base s size ↔ Comparable blocks size.toNat := by
  by_cases small : size.toNat < 2147483648
  · exact iff_of_true (malloc_small start room sound small)
      (comparable_of_small sound.inside small)
  · rcases malloc_large start room sound (Nat.le_of_not_lt small) with
      ⟨comparable, ran⟩ | ⟨wrong, h', ptr, ran, some_⟩
    · refine iff_of_true ⟨_, ran, ⟨blocks, sound⟩, fun some_ => absurd rfl some_⟩ comparable
    · refine iff_of_false ?_ wrong
      rintro ⟨result, ran', served⟩
      obtain rfl := Option.some.inj (ran.symm.trans ran')
      have := served.bytes_le some_
      omega

/-- `malloc` has a block for a comparable request, or none is large enough and nothing
happens. -/
theorem malloc_cases (start : 0 < base) (room : base + 256 ≤ 2147483648)
    (sound : Sound base s blocks) (comparable : Comparable blocks size.toNat) :
    ((size = 0 ∨ TooLarge blocks size.toNat) ∧ malloc s.heap size = some (s.heap, 0)) ∨
      (size ≠ 0 ∧ ¬ TooLarge blocks size.toNat ∧
        ∃ h ptr, malloc s.heap size = some (h, ptr) ∧ ptr ≠ 0) := by
  by_cases nothing : size = 0
  · exact .inl ⟨.inl nothing, by rw [malloc, if_pos nothing]⟩
  · by_cases small : size.toNat < 2147483648
    · have request : (roundSize size).toNat = rounded size.toNat := toNat_roundSize small
      have range : 8 ≤ (roundSize size).toNat ∧ (roundSize size).toNat ≤ 2147483648 := by
        rw [request]
        unfold rounded
        omega
      rw [malloc, if_neg nothing]
      rcases mallocFrom_spec (HEAP_SIZE.toNat + 2) 0 [] start (by omega) range.1 range.2 rfl
        sound.list (.inl ⟨rfl, rfl⟩) sound.length_lt sound.gapped sound.inside with
        ⟨none_, missed⟩ | ⟨skipped, b, back, kept, live, h', newBlock, rfl, cuts, found, addr, -⟩
      · exact .inl ⟨.inr fun b member => by rw [← request]; exact none_ b member, missed⟩
      · have here := sound.inside b (by simp)
        have low := here.low
        have high := here.high
        refine .inr ⟨nothing, fun tooLarge => ?_, h', newBlock + 4, found, fun zero => ?_⟩
        · have short := tooLarge b (by simp)
          rcases cuts with ⟨fits, -⟩ | ⟨fits, -⟩
          · omega
          · omega
        · have four : (4 : BitVec 32).toNat = 4 := rfl
          have value := congrArg BitVec.toNat zero
          rw [BitVec.toNat_add, addr, four, show (0 : BitVec 32).toNat = 0 from rfl] at value
          rcases cuts with ⟨-, -, rfl⟩ | ⟨-, -, -, rfl⟩
          · simp only at value
            omega
          · omega
    · rcases malloc_large start room sound (Nat.le_of_not_lt small) with ⟨-, ran⟩ | ⟨wrong, -⟩
      · refine .inl ⟨.inr fun b member => ?_, ran⟩
        have := (sound.inside b member).high
        have := (sound.inside b member).low
        unfold rounded
        omega
      · exact absurd comparable wrong

theorem malloc_null_iff (start : 0 < base) (room : base + 256 ≤ 2147483648)
    (sound : Sound base s blocks) (comparable : Comparable blocks size.toNat)
    {result : Heap × BitVec 32} (ran : malloc s.heap size = some result) :
    result.2 = 0 ↔ size = 0 ∨ TooLarge blocks size.toNat := by
  rcases malloc_cases start room sound comparable with
    ⟨none_, ran'⟩ | ⟨nonzero, fits, h, ptr, ran', some_⟩
  · obtain rfl := Option.some.inj (ran'.symm.trans ran)
    exact iff_of_true rfl none_
  · obtain rfl := Option.some.inj (ran'.symm.trans ran)
    exact iff_of_false some_ (not_or.2 ⟨nonzero, fits⟩)

/-! ## calloc -/

theorem zeroBytes_outside (n : Nat) {ptr : BitVec 32} {h : Heap} {x : Nat}
    (room : ptr.toNat + n < 4294967296) (outside : x < ptr.toNat ∨ ptr.toNat + n ≤ x) :
    (zeroBytes n ptr h).mem x = h.mem x := by
  induction n generalizing ptr h with
  | zero => rfl
  | succ n ih =>
      have one : (ptr + 1).toNat = ptr.toNat + 1 :=
        toNat_add_of_lt (show ptr.toNat + 1 < 4294967296 by omega)
      rw [zeroBytes, ih (by omega) (by omega)]
      exact Function.update_of_ne (by omega) _ _

theorem zeroBytes_inside (n : Nat) {ptr : BitVec 32} {h : Heap} {i : Nat}
    (room : ptr.toNat + n < 4294967296) (inside : i < n) :
    (zeroBytes n ptr h).mem (ptr.toNat + i) = 0 := by
  induction n generalizing ptr h i with
  | zero => omega
  | succ n ih =>
      have one : (ptr + 1).toNat = ptr.toNat + 1 :=
        toNat_add_of_lt (show ptr.toNat + 1 < 4294967296 by omega)
      rw [zeroBytes]
      cases i with
      | zero =>
          rw [zeroBytes_outside n (by omega) (by omega)]
          exact Function.update_self _ _ _
      | succ i =>
          rw [show ptr.toNat + (i + 1) = (ptr + 1).toNat + i by omega]
          exact ih (by omega) (by omega)

/-- Zeroing bytes that were asked for is a run of writes. -/
theorem zeroBytes_sound (n : Nat) {ptr : BitVec 32} (sound : Sound base s blocks) {l : Live}
    (live : l ∈ s.live) (above : l.ptr.toNat ≤ ptr.toNat)
    (below : ptr.toNat + n ≤ l.ptr.toNat + l.request.toNat)
    (room : ptr.toNat + n < 4294967296) :
    ∃ blocks', Sound base { s with heap := zeroBytes n ptr s.heap } blocks' := by
  induction n generalizing ptr s blocks with
  | zero => exact ⟨blocks, sound⟩
  | succ n ih =>
      have one : (ptr + 1).toNat = ptr.toNat + 1 :=
        toNat_add_of_lt (show ptr.toNat + 1 < 4294967296 by omega)
      have wrote : ∃ t blocks', step s (.write ptr.toNat 0) = some t ∧ Sound base t blocks' :=
        write_sound sound ⟨l, live, above, by omega⟩
      obtain ⟨t, blocks', written, sound'⟩ := wrote
      obtain rfl := Option.some.inj written
      exact ih sound' live (by omega) (by omega) (by omega)

/-- The product that `calloc` asks for. -/
theorem toNat_product (nmemb size : BitVec 32) :
    (nmemb * size).toNat = nmemb.toNat * size.toNat % 4294967296 := BitVec.toNat_mul _ _

theorem calloc_serves (start : 0 < base) (room : base + 256 ≤ 2147483648)
    (sound : Sound base s blocks) {nmemb : BitVec 32}
    (comparable : Comparable blocks (nmemb * size).toNat)
    (exact_ : nmemb.toNat * size.toNat < 4294967296 ∨ nmemb * size = 0 ∨
      TooLarge blocks (nmemb * size).toNat) : CallocServes base s nmemb size := by
  obtain ⟨⟨h, ptr⟩, ran, ⟨blocks', sound'⟩, enough⟩ :=
    show MallocServes base s (nmemb * size) from
      (mallocServes_iff start room sound).2 comparable
  by_cases null : ptr = 0
  · refine ⟨(h, ptr), ?_, ⟨⟨blocks', sound'⟩, fun some_ => absurd null some_⟩,
      fun some_ => absurd null some_⟩
    rw [calloc, ran, Option.map_some]
    dsimp only
    rw [if_neg (not_not.2 null)]
  · have product : (nmemb * size).toNat = nmemb.toNat * size.toNat := by
      rw [toNat_product]
      refine Nat.mod_eq_of_lt (exact_.resolve_right fun none_ => null ?_)
      exact (malloc_null_iff start room sound comparable ran).2 none_
    have live : (⟨ptr, nmemb * size⟩ : Live) ∈ returned s.live ptr (nmemb * size) := by
      rw [returned, if_neg null]
      exact List.mem_cons_self
    have serves := sound'.serves _ live
    have low := serves.inside.low
    have high := serves.inside.high
    have payload := serves.payload
    have fits := serves.enough
    simp only at low high payload fits
    have space : ptr.toNat + (nmemb * size).toNat < 4294967296 := by omega
    have zeroed := zeroBytes_sound (nmemb * size).toNat sound' live (Nat.le_refl _)
      (Nat.le_refl _) space
    refine ⟨(zeroBytes (nmemb * size).toNat ptr h, ptr), ?_, ⟨zeroed, fun _ => ?_⟩,
      fun _ i less => ?_⟩
    · rw [calloc, ran, Option.map_some]
      dsimp only
      rw [if_pos null]
    · obtain ⟨blocks'', sound''⟩ := zeroed
      have := (sound''.serves _ live).enough
      simp only at this ⊢
      omega
    · exact zeroBytes_inside _ space (by omega)

/-- **calloc**, exactly. -/
theorem callocServes_iff (start : 0 < base) (room : base + 256 ≤ 2147483648)
    (sound : Sound base s blocks) {nmemb : BitVec 32} :
    CallocServes base s nmemb size ↔ Comparable blocks (nmemb * size).toNat ∧
      (nmemb.toNat * size.toNat < 4294967296 ∨ nmemb * size = 0 ∨
        TooLarge blocks (nmemb * size).toNat) := by
  refine ⟨?_, fun ⟨comparable, exact_⟩ => calloc_serves start room sound comparable exact_⟩
  rintro ⟨result, ran, served, -⟩
  obtain ⟨⟨h, ptr⟩, given, shape⟩ := Option.map_eq_some_iff.1 ran
  have pointer : result.2 = ptr := by
    rw [← shape]
    dsimp only
    split <;> rfl
  have wrapped : (nmemb * size).toNat ≤ nmemb.toNat * size.toNat := by
    rw [toNat_product]
    exact Nat.mod_le _ _
  have comparable : Comparable blocks (nmemb * size).toNat := by
    by_contra wrong
    by_cases small : (nmemb * size).toNat < 2147483648
    · exact wrong (comparable_of_small sound.inside small)
    · rcases malloc_large start room sound (Nat.le_of_not_lt small) with
        ⟨comparable, -⟩ | ⟨-, h', ptr', given', some_⟩
      · exact wrong comparable
      · obtain ⟨rfl, rfl⟩ := Prod.mk.inj (Option.some.inj (given.symm.trans given'))
        have := served.bytes_le (by rw [pointer]; exact some_)
        omega
  refine ⟨comparable, ?_⟩
  by_cases null : ptr = 0
  · exact .inr ((malloc_null_iff start room sound comparable given).1 null)
  · have := served.bytes_le (by rw [pointer]; exact null)
    exact .inl (by omega)

end Calls

/-! ## Both calls -/

/-- **Sizes that are not compared as integers.**  In every state of the heap, `malloc` serves
a request if and only if no free block is so small against it that their difference wraps;
`calloc` serves one if and only if that holds of the wrapped product and the product did not
wrap, or the wrapped one is served with `NULL`. -/
theorem requests_served_iff {heap : BitVec 32} (start : 0 < heap.toNat)
    (room : heap.toNat + HEAP_SIZE.toNat ≤ 2147483648) {s : State} {blocks : List Block}
    (sound : Sound heap.toNat s blocks) (nmemb size : BitVec 32) :
    (MallocServes heap.toNat s size ↔ Comparable blocks size.toNat) ∧
      (CallocServes heap.toNat s nmemb size ↔ Comparable blocks (nmemb * size).toNat ∧
        (nmemb.toNat * size.toNat < 4294967296 ∨ nmemb * size = 0 ∨
          TooLarge blocks (nmemb * size).toNat)) :=
  ⟨mallocServes_iff start room sound, callocServes_iff start room sound⟩

/-- The heap at its first use, at address 4096. -/
def freshHeap : State where
  heap := heapInit 4096 { freeList := 0, mem := fun _ => 0 }
  live := []

theorem freshHeap_sound : Sound 4096 freshHeap [⟨4096, 256⟩] := by
  have boot : Sound (4096 : BitVec 32).toNat freshHeap [⟨(4096 : BitVec 32).toNat, 256⟩] :=
    Sound.boot { freeList := 0, mem := fun _ => 0 }
  exact boot

/-- A hundred bytes are served; sixteen times 0x10000001 bytes are served with sixteen. -/
theorem requests_served_iff_fresh :
    MallocServes 4096 freshHeap 100 ∧ ¬ CallocServes 4096 freshHeap 0x10000001 16 := by
  have sound : Sound (4096 : BitVec 32).toNat freshHeap [⟨4096, 256⟩] := freshHeap_sound
  obtain ⟨-, calloc_⟩ := requests_served_iff (by decide) (by decide) sound 0x10000001 16
  obtain ⟨malloc_, -⟩ := requests_served_iff (by decide) (by decide) sound 0 100
  refine ⟨malloc_.2 ?_, fun served => ?_⟩
  · intro b member
    obtain rfl := List.mem_singleton.1 member
    decide
  · rcases (calloc_.1 served).2 with exact_ | zero | tooLarge
    · exact absurd exact_ (by decide)
    · exact absurd zero (by decide)
    · exact absurd (tooLarge ⟨4096, 256⟩ List.mem_cons_self) (by decide)

/-- **The largest request** is rounded up to nothing, and gets the end of the heap. -/
theorem malloc_largest :
    Sound 4096 freshHeap [⟨4096, 256⟩] ∧ ¬ MallocServes 4096 freshHeap 0xffffffff := by
  refine ⟨freshHeap_sound, fun served => ?_⟩
  have comparable := (mallocServes_iff (by decide) (by decide) freshHeap_sound).1 served
  exact absurd (comparable ⟨4096, 256⟩ List.mem_cons_self) (by decide)

end Buenos.Userland
