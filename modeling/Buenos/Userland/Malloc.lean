/-
# Userland.Malloc -- what malloc and free do to the list

The free list is a list of blocks in the order of their addresses.  `malloc` takes one block
of it or the end of one (`malloc_spec`); `free` puts a block between those before and those
behind it and joins it with its neighbours (`free_spec`).  Neither writes outside the blocks
of the list and the block put back.
-/
import Buenos.Userland.Heap

namespace Buenos.Userland

open Buenos.Theory

set_option autoImplicit false

/-! ## Blocks in the heap -/

/-- The block is large enough for a header, and in the array at `base`. -/
structure InHeap (base : Nat) (b : Block) : Prop where
  large : 8 ≤ b.size
  low : base ≤ b.addr
  high : b.addr + b.size ≤ base + 256

/-- `b` goes between the free blocks `front` and `back`. -/
structure Fits (base : Nat) (front : List Block) (b : Block) (back : List Block) : Prop where
  frontGapped : Gapped front
  backGapped : Gapped back
  left : ∀ a ∈ front, a.stop ≤ b.addr
  right : ∀ c ∈ back, b.stop ≤ c.addr
  frontIn : ∀ a ∈ front, InHeap base a
  here : InHeap base b
  backIn : ∀ c ∈ back, InHeap base c

/-- `b` joined with the last block before it, if they touch. -/
def JoinsPrev (front : List Block) (b : Block) (front' : List Block) (b' : Block) : Prop :=
  (front' = front ∧ b' = b ∧ ∀ a ∈ front, a.stop < b.addr) ∨
    ∃ a, front = front' ++ [a] ∧ a.stop = b.addr ∧ b' = ⟨a.addr, a.size + b.size⟩

/-- `b` joined with the first block behind it, if they touch. -/
def JoinsNext (b : Block) (back : List Block) (b' : Block) (back' : List Block) : Prop :=
  (b' = b ∧ back' = back ∧ ∀ c ∈ back, b.stop < c.addr) ∨
    ∃ c, back = c :: back' ∧ b.stop = c.addr ∧ b' = ⟨b.addr, b.size + c.size⟩

section Joins

variable {base : Nat} {front back front' back' : List Block} {b b' : Block}

theorem Fits.joinsPrev (fits : Fits base front b back) (joins : JoinsPrev front b front' b') :
    Fits base front' b' back ∧ ∀ a ∈ front', a.stop < b'.addr := by
  rcases joins with ⟨rfl, rfl, apart⟩ | ⟨a, rfl, touch, rfl⟩
  · exact ⟨fits, apart⟩
  · obtain ⟨sorted, -, below⟩ := List.pairwise_append.1 fits.frontGapped
    have inside := fits.frontIn a (by simp)
    have gap : ∀ c ∈ front', c.stop < a.addr := fun c member => below c member a (by simp)
    have here := fits.here
    simp only [Block.stop] at touch
    refine ⟨⟨sorted, fits.backGapped, fun c member => Nat.le_of_lt (gap c member), ?_,
      fun c member => fits.frontIn c (by simp [member]), ⟨?_, inside.low, ?_⟩, fits.backIn⟩, gap⟩
    · intro c member
      have behind := fits.right c member
      simp only [Block.stop] at behind ⊢
      omega
    · have := inside.large
      simp only
      omega
    · have := here.high
      simp only
      omega

theorem Fits.joinsNext (fits : Fits base front b back) (joins : JoinsNext b back b' back')
    (apart : ∀ a ∈ front, a.stop < b.addr) :
    Fits base front b' back' ∧ (∀ a ∈ front, a.stop < b'.addr) ∧ ∀ c ∈ back', b'.stop < c.addr := by
  rcases joins with ⟨rfl, rfl, gap⟩ | ⟨c, rfl, touch, rfl⟩
  · exact ⟨fits, apart, gap⟩
  · obtain ⟨above, sorted⟩ := List.pairwise_cons.1 fits.backGapped
    have inside := fits.backIn c (by simp)
    have here := fits.here
    simp only [Block.stop] at touch
    have gap : ∀ d ∈ back', b.addr + (b.size + c.size) < d.addr := by
      intro d member
      have later := above d member
      simp only [Block.stop] at later
      omega
    refine ⟨⟨fits.frontGapped, sorted, fits.left, fun d member => Nat.le_of_lt (gap d member),
      fits.frontIn, ⟨?_, here.low, ?_⟩, fun d member => fits.backIn d (by simp [member])⟩, apart,
      gap⟩
    · have := here.large
      simp only
      omega
    · have := inside.high
      simp only
      omega

theorem Fits.gapped (fits : Fits base front b back) (before : ∀ a ∈ front, a.stop < b.addr)
    (behind : ∀ c ∈ back, b.stop < c.addr) : Gapped (front ++ b :: back) := by
  refine List.pairwise_append.2 ⟨fits.frontGapped,
    List.pairwise_cons.2 ⟨behind, fits.backGapped⟩, ?_⟩
  intro a first c later
  have gap := before a first
  rcases List.mem_cons.1 later with rfl | later
  · exact gap
  · have next := behind c later
    have filled : b.addr ≤ b.stop := Nat.le_add_right _ _
    omega

theorem partition_joinsPrev {lo hi : Nat} {rest : List Block}
    (part : Partition lo hi (front ++ b :: rest)) (joins : JoinsPrev front b front' b') :
    Partition lo hi (front' ++ b' :: rest) := by
  rcases joins with ⟨rfl, rfl, -⟩ | ⟨a, rfl, touch, rfl⟩
  · exact part
  · have first : (front' ++ [a] ++ b :: rest).Perm (a :: b :: (front' ++ rest)) := by
      rw [List.append_assoc, List.singleton_append]
      exact (List.perm_middle).trans (List.perm_middle.cons a)
    have cut := part.perm first
    have same : b = ⟨a.addr + a.size, b.size⟩ := by
      simp only [Block.stop] at touch
      rw [touch]
    rw [same] at cut
    exact (Partition.join (a := a.addr) cut).perm List.perm_middle.symm

theorem partition_joinsNext {lo hi : Nat} {rest : List Block}
    (part : Partition lo hi (front ++ b :: (back ++ rest))) (joins : JoinsNext b back b' back') :
    Partition lo hi (front ++ b' :: (back' ++ rest)) := by
  rcases joins with ⟨rfl, rfl, -⟩ | ⟨c, rfl, touch, rfl⟩
  · exact part
  · have first : (front ++ b :: (c :: back' ++ rest)).Perm (b :: c :: (front ++ (back' ++ rest))) := by
      rw [List.cons_append]
      exact List.perm_middle.trans (List.perm_middle.cons b)
    have cut := part.perm first
    have same : c = ⟨b.addr + b.size, c.size⟩ := by
      simp only [Block.stop] at touch
      rw [touch]
    rw [same] at cut
    exact (Partition.join (a := b.addr) cut).perm List.perm_middle.symm

end Joins

/-! ## The list around a place -/

/-- `prev` is the last block of the front, and 0 if there is none. -/
def Last (prev : BitVec 32) (front : List Block) : Prop :=
  (front = [] ∧ prev = 0) ∨ ∃ init a, front = init ++ [a] ∧ prev.toNat = a.addr

/-- The free list has `front` up to `block` and `back` from `cur` on. -/
structure Around (h : Heap) (front : List Block) (block cur : BitVec 32) (b : Block)
    (back : List Block) : Prop where
  front : h.Seg h.freeList front block
  addr : block.toNat = b.addr
  size : (h.size block).toNat = b.size
  next : h.next block = cur
  back : h.Seg cur back 0

/-- Only bytes of these blocks are written. -/
def Keeps (h h' : Heap) (blocks : List Block) : Prop :=
  ∀ x, (∀ b ∈ blocks, x < b.addr ∨ b.stop ≤ x) → h'.mem x = h.mem x

section Specs

variable {h h' : Heap} {base : Nat} {front back : List Block} {b : Block}
  {prev block cur value : BitVec 32}

theorem Keeps.trans {h'' : Heap} {blocks : List Block} (first : Keeps h h' blocks)
    (second : Keeps h' h'' blocks) : Keeps h h'' blocks :=
  fun x outside => (second x outside).trans (first x outside)

theorem keeps_setSize {blocks : List Block} (member : b ∈ blocks) (inside : InHeap base b)
    (addr : block.toNat = b.addr) : Keeps h (h.setSize block value) blocks := by
  intro x outside
  have := outside b member
  have := inside.large
  exact h.mem_setSize value (by simp only [Block.stop] at *; omega)

theorem keeps_setNext {blocks : List Block} (member : b ∈ blocks) (inside : InHeap base b)
    (addr : block.toNat = b.addr) : Keeps h (h.setNext block value) blocks := by
  intro x outside
  have := outside b member
  have := inside.large
  exact h.mem_setNext value (by simp only [Block.stop] at *; omega)

theorem Around.seg (around : Around h front block cur b back) :
    h.Seg h.freeList (front ++ b :: back) 0 := by
  refine Heap.seg_append.2 ⟨block, around.front, around.addr, around.size, ?_⟩
  rw [around.next]
  exact around.back

theorem seg_snoc {p q : BitVec 32} {a : Block} :
    h.Seg p (front ++ [a]) q ↔
      ∃ r, h.Seg p front r ∧ r.toNat = a.addr ∧ (h.size r).toNat = a.size ∧ h.next r = q := by
  simp [Heap.seg_append, Heap.Seg]

theorem clear_of_stop_le {blocks : List Block} {p : BitVec 32}
    (inside : ∀ a ∈ blocks, InHeap base a) (below : ∀ a ∈ blocks, a.stop ≤ p.toNat) :
    Heap.Clear p blocks := by
  intro a member
  have := (inside a member).large
  have := below a member
  simp only [Block.stop] at this
  omega

theorem clear_of_le {blocks : List Block} {p : BitVec 32}
    (above : ∀ a ∈ blocks, p.toNat + 8 ≤ a.addr) : Heap.Clear p blocks :=
  fun a member => Or.inr (above a member)

theorem Last.eq_zero_iff (last : Last prev front) (start : 0 < base)
    (inside : ∀ a ∈ front, InHeap base a) : prev = 0 ↔ front = [] := by
  rcases last with ⟨rfl, rfl⟩ | ⟨init, a, rfl, addr⟩
  · exact ⟨fun _ => rfl, fun _ => rfl⟩
  · have low := (inside a (by simp)).low
    constructor
    · rintro rfl
      have zero : (0 : BitVec 32).toNat = 0 := rfl
      omega
    · intro empty
      simp at empty

/-- Writing the link in front of a place ends the front at the new value. -/
theorem seg_setLink {p : BitVec 32} (start : 0 < base) (last : Last prev front)
    (gapped : Gapped front) (inside : ∀ a ∈ front, InHeap base a)
    (seg : h.Seg h.freeList front p) :
    (h.setLink prev value).Seg (h.setLink prev value).freeList front value := by
  have zero := last.eq_zero_iff start inside
  rcases last with ⟨rfl, rfl⟩ | ⟨init, a, rfl, addr⟩
  · exact rfl
  · have some_ : prev ≠ 0 := by
      intro nil
      have := zero.1 nil
      simp at this
    obtain ⟨r, first, raddr, size, -⟩ := seg_snoc.1 seg
    obtain rfl : r = prev := BitVec.eq_of_toNat_eq (raddr.trans addr.symm)
    have clear : Heap.Clear r init := by
      refine clear_of_stop_le (fun c member => inside c (by simp [member])) ?_
      intro c member
      have := (List.pairwise_append.1 gapped).2.2 c member a (by simp)
      omega
    rw [Heap.setLink, if_neg some_]
    exact seg_snoc.2 ⟨r, first.setNext value clear, raddr, by simpa using size, by simp⟩

theorem setLink_mem {x : Nat} (outside : prev ≠ 0 → x < prev.toNat ∨ prev.toNat + 8 ≤ x) :
    (h.setLink prev value).mem x = h.mem x := by
  unfold Heap.setLink
  split
  · rfl
  · rename_i some_
    exact h.mem_setNext value (outside some_)

/-! ## free -/

theorem insert_around (start : 0 < base) (last : Last prev front) (fits : Fits base front b back)
    (before : h.Seg h.freeList front cur) (behind : h.Seg cur back 0)
    (addr : block.toNat = b.addr) (size : (h.size block).toNat = b.size) :
    Around ((h.setLink prev block).setNext block cur) front block cur b back ∧
      Keeps h ((h.setLink prev block).setNext block cur) (front ++ b :: back) := by
  have filled := fits.here.large
  -- The write to the link is inside the front.
  have kept : ∀ x, (∀ a ∈ front, x < a.addr ∨ a.stop ≤ x) → (h.setLink prev block).mem x = h.mem x := by
    intro x outside
    refine setLink_mem fun some_ => ?_
    rcases last with ⟨-, zero⟩ | ⟨init, a, rfl, here⟩
    · exact absurd zero some_
    · have := outside a (by simp)
      have := (fits.frontIn a (by simp)).large
      simp only [Block.stop] at *
      omega
  have behindFront : ∀ x, b.addr ≤ x → (h.setLink prev block).mem x = h.mem x := by
    intro x above
    refine kept x fun a member => Or.inr ?_
    exact Nat.le_trans (fits.left a member) above
  have header := Heap.header_congr (p := block) fun x above _ => behindFront x (by omega)
  have back' : (h.setLink prev block).Seg cur back 0 := by
    refine behind.congr fun c member x above _ => behindFront x ?_
    have := fits.right c member
    simp only [Block.stop] at this
    omega
  have clearFront : Heap.Clear block front := by
    refine clear_of_stop_le fits.frontIn fun a member => ?_
    rw [addr]
    exact fits.left a member
  have clearBack : Heap.Clear block back := by
    refine clear_of_le fun c member => ?_
    have := fits.right c member
    simp only [Block.stop] at this
    omega
  refine ⟨⟨?_, addr, ?_, by simp, back'.setNext cur clearBack⟩, ?_⟩
  · exact (seg_setLink start last fits.frontGapped fits.frontIn before).setNext cur clearFront
  · rw [Heap.size_setNext, header.1, size]
  · have link : Keeps h (h.setLink prev block) (front ++ b :: back) :=
      fun x outside => kept x fun a member => outside a (by simp [member])
    exact link.trans (keeps_setNext (b := b) (by simp) fits.here addr)

theorem toNat_sub_of_le {x y : BitVec 32} (le : y.toNat ≤ x.toNat) :
    (x - y).toNat = x.toNat - y.toNat := by
  rw [BitVec.toNat_sub]
  have := x.isLt
  have := y.isLt
  omega

theorem toNat_add_of_lt {x y : BitVec 32} (room : x.toNat + y.toNat < 4294967296) :
    (x + y).toNat = x.toNat + y.toNat := by
  rw [BitVec.toNat_add]
  omega

theorem mergePrev_spec (start : 0 < base) (last : Last prev front) (fits : Fits base front b back)
    (around : Around h front block cur b back) :
    ∃ front' b', JoinsPrev front b front' b' ∧
      Around (mergePrev h prev block cur).1 front' (mergePrev h prev block cur).2 cur b' back ∧
      Keeps h (mergePrev h prev block cur).1 (front ++ b :: back) := by
  have zero := last.eq_zero_iff start fits.frontIn
  rcases last with ⟨rfl, rfl⟩ | ⟨init, a, rfl, prevAddr⟩
  · refine ⟨[], b, Or.inl ⟨rfl, rfl, fun a member => absurd member (List.not_mem_nil)⟩, ?_, ?_⟩
    · simpa [mergePrev] using around
    · intro x _
      simp [mergePrev]
  · have some_ : prev ≠ 0 := by
      intro nil
      have := zero.1 nil
      simp at this
    have insideA := fits.frontIn a (by simp)
    have left := fits.left a (by simp)
    have filled := insideA.large
    have here := fits.here.high
    obtain ⟨r, first, raddr, size, -⟩ := seg_snoc.1 around.front
    obtain rfl : r = prev := BitVec.eq_of_toNat_eq (raddr.trans prevAddr.symm)
    simp only [Block.stop] at left
    have distance : (block - r).toNat = b.addr - a.addr := by
      rw [toNat_sub_of_le (by rw [prevAddr, around.addr]; omega), prevAddr, around.addr]
    have touches : block - r = h.size r ↔ a.stop = b.addr := by
      rw [← BitVec.toNat_inj, distance, size, Block.stop]
      omega
    by_cases touch : a.stop = b.addr
    · have merged : mergePrev h r block cur =
          ((h.setSize r (h.size r + h.size block)).setNext r cur, r) :=
        if_pos ⟨some_, touches.2 touch⟩
      have low := insideA.low
      simp only [Block.stop] at touch
      have clear : Heap.Clear r init := by
        refine clear_of_stop_le (fun c member => fits.frontIn c (by simp [member])) fun c member => ?_
        have := (List.pairwise_append.1 fits.frontGapped).2.2 c member a (by simp)
        omega
      have clearBack : Heap.Clear r back := by
        refine clear_of_le fun c member => ?_
        have := fits.right c member
        simp only [Block.stop] at this
        omega
      rw [merged]
      refine ⟨init, ⟨a.addr, a.size + b.size⟩, Or.inr ⟨a, rfl, touch, rfl⟩,
        ⟨(first.setSize _ clear).setNext cur clear, prevAddr, ?_, by simp,
          (around.back.setSize _ clearBack).setNext cur clearBack⟩, ?_⟩
      · rw [Heap.size_setNext, Heap.size_setSize, toNat_add_of_lt (by rw [size, around.size]; omega),
          size, around.size]
      · exact Keeps.trans (keeps_setSize (b := a) (by simp) insideA prevAddr)
          (keeps_setNext (b := a) (by simp) insideA prevAddr)
    · have same : mergePrev h r block cur = (h, block) :=
        if_neg fun both => touch (touches.1 both.2)
      rw [same]
      refine ⟨init ++ [a], b, Or.inl ⟨rfl, rfl, ?_⟩, around, fun x _ => rfl⟩
      intro c member
      rcases List.mem_append.1 member with early | final
      · have gap := (List.pairwise_append.1 fits.frontGapped).2.2 c early a (by simp)
        omega
      · rw [List.mem_singleton.1 final]
        exact Nat.lt_of_le_of_ne left touch

theorem mergeNext_spec (fits : Fits base front b back) (around : Around h front block cur b back) :
    ∃ b' back', JoinsNext b back b' back' ∧
      (mergeNext h block cur).Seg (mergeNext h block cur).freeList (front ++ b' :: back') 0 ∧
      Keeps h (mergeNext h block cur) (front ++ b :: back) := by
  cases back with
  | nil =>
      have zero : cur = 0 := around.back
      have same : mergeNext h block cur = h := if_neg fun both => both.1 zero
      rw [same]
      exact ⟨b, [], Or.inl ⟨rfl, rfl, fun c member => absurd member List.not_mem_nil⟩, around.seg,
        fun x _ => rfl⟩
  | cons c back =>
      obtain ⟨curAddr, curSize, rest⟩ := around.back
      have insideC := fits.backIn c (by simp)
      have right := fits.right c (by simp)
      have low := insideC.low
      have high := insideC.high
      have filled := fits.here.large
      have lowB := fits.here.low
      simp only [Block.stop] at right
      have some_ : cur ≠ 0 := by
        rintro rfl
        have zero : (0 : BitVec 32).toNat = 0 := rfl
        omega
      have distance : (cur - block).toNat = c.addr - b.addr := by
        rw [toNat_sub_of_le (by rw [curAddr, around.addr]; omega), curAddr, around.addr]
      have touches : cur - block = h.size block ↔ b.stop = c.addr := by
        rw [← BitVec.toNat_inj, distance, around.size, Block.stop]
        omega
      obtain ⟨above, -⟩ := List.pairwise_cons.1 fits.backGapped
      by_cases touch : b.stop = c.addr
      · have merged : mergeNext h block cur =
            (h.setSize block (h.size block + h.size cur)).setNext block
              ((h.setSize block (h.size block + h.size cur)).next cur) :=
          if_pos ⟨some_, touches.2 touch⟩
        simp only [Block.stop] at touch
        have clear : Heap.Clear block front := by
          refine clear_of_stop_le fits.frontIn fun a member => ?_
          rw [around.addr]
          exact fits.left a member
        have clearBack : Heap.Clear block back := by
          refine clear_of_le fun d member => ?_
          have := above d member
          have addr := around.addr
          simp only [Block.stop] at this
          omega
        have header : (h.setSize block (h.size block + h.size cur)).next cur = h.next cur := by
          refine (Heap.header_congr fun x from_ _ => h.mem_setSize _ (Or.inr ?_)).2
          have addr := around.addr
          omega
        rw [merged, header]
        refine ⟨⟨b.addr, b.size + c.size⟩, back, Or.inr ⟨c, rfl, touch, rfl⟩, ?_, ?_⟩
        · refine Heap.seg_append.2 ⟨block, ?_, around.addr, ?_, ?_⟩
          · exact (around.front.setSize _ clear).setNext _ clear
          · rw [Heap.size_setNext, Heap.size_setSize,
              toNat_add_of_lt (by rw [around.size, curSize]; omega), around.size, curSize]
          · rw [Heap.next_setNext]
            exact (rest.setSize _ clearBack).setNext _ clearBack
        · exact Keeps.trans (keeps_setSize (b := b) (by simp) fits.here around.addr)
            (keeps_setNext (b := b) (by simp) fits.here around.addr)
      · have same : mergeNext h block cur = h := if_neg fun both => touch (touches.1 both.2)
        rw [same]
        refine ⟨b, c :: back, Or.inl ⟨rfl, rfl, ?_⟩, around.seg, fun x _ => rfl⟩
        intro d member
        have gap : b.stop < c.addr := Nat.lt_of_le_of_ne right touch
        rcases List.mem_cons.1 member with rfl | later
        · exact gap
        · have := above d later
          simp only [Block.stop] at this gap ⊢
          omega

theorem insertBlock_spec (start : 0 < base) (last : Last prev front) (fits : Fits base front b back)
    (before : h.Seg h.freeList front cur) (behind : h.Seg cur back 0)
    (addr : block.toNat = b.addr) (size : (h.size block).toNat = b.size) :
    ∃ front' b' b'' back', JoinsPrev front b front' b' ∧ JoinsNext b' back b'' back' ∧
      (insertBlock h prev block cur).Seg (insertBlock h prev block cur).freeList
        (front' ++ b'' :: back') 0 ∧
      Keeps h (insertBlock h prev block cur) (front ++ b :: back) := by
  obtain ⟨placed, first⟩ := insert_around start last fits before behind addr size
  obtain ⟨front', b', joinsPrev, merged, second⟩ := mergePrev_spec start last fits placed
  obtain ⟨fits', -⟩ := fits.joinsPrev joinsPrev
  obtain ⟨b'', back', joinsNext, seg, third⟩ := mergeNext_spec fits' merged
  refine ⟨front', b', b'', back', joinsPrev, joinsNext, seg, (first.trans second).trans ?_⟩
  -- The joined block has no bytes but those of the blocks it was made of.
  intro x outside
  refine third x ?_
  rcases joinsPrev with ⟨rfl, rfl, -⟩ | ⟨a, rfl, touch, rfl⟩
  · exact outside
  · simp only [List.mem_append, List.mem_cons, List.not_mem_nil, or_false] at outside ⊢
    rintro c (early | rfl | late)
    · exact outside c (Or.inl (Or.inl early))
    · have one := outside a (Or.inl (Or.inr rfl))
      have two := outside b (Or.inr (Or.inl rfl))
      simp only [Block.stop] at one two touch ⊢
      omega
    · exact outside c (Or.inr (Or.inr late))

/-- The loop stops between the blocks before the freed one and those behind it. -/
theorem freeFrom_spec (turns : Nat) (prev : BitVec 32) {blocks : List Block}
    (seg : h.Seg cur blocks 0) (enough : blocks.length < turns) (start : 0 < base) (inside : ∀ c ∈ blocks, InHeap base c)
    (gapped : Gapped blocks) (apart : ∀ c ∈ blocks, c.addr ≠ block.toNat) :
    ∃ passed back prev' cur', blocks = passed ++ back ∧ (∀ a ∈ passed, a.addr < block.toNat) ∧
      (∀ c ∈ back, block.toNat < c.addr) ∧ h.Seg cur passed cur' ∧ h.Seg cur' back 0 ∧
      freeFrom block turns h prev cur = some (insertBlock h prev' block cur') ∧
      (∀ front, Last prev front → Last prev' (front ++ passed)) := by
  induction blocks generalizing turns prev cur with
  | nil =>
      obtain ⟨turns, rfl⟩ := Nat.exists_eq_add_one_of_ne_zero (Nat.ne_of_gt enough)
      have zero : cur = 0 := seg
      refine ⟨[], [], prev, cur, rfl, by simp, by simp, rfl, zero, ?_, ?_⟩
      · rw [freeFrom, if_pos (Or.inr zero)]
      · intro front last
        rwa [List.append_nil]
  | cons c rest ih =>
      obtain ⟨turns, rfl⟩ : ∃ n, turns = n + 1 := ⟨turns - 1, by omega⟩
      obtain ⟨addr, size, tail⟩ := seg
      obtain ⟨later, sorted⟩ := List.pairwise_cons.1 gapped
      have low := (inside c (by simp)).low
      have some_ : cur ≠ 0 := by
        rintro rfl
        have zero : (0 : BitVec 32).toNat = 0 := rfl
        omega
      by_cases behind : block < cur
      · have above : block.toNat < c.addr := addr ▸ BitVec.lt_def.1 behind
        refine ⟨[], c :: rest, prev, cur, rfl, by simp, ?_, rfl, ⟨addr, size, tail⟩, ?_, ?_⟩
        · intro d member
          rcases List.mem_cons.1 member with rfl | member
          · exact above
          · have gap := later d member
            simp only [Block.stop] at gap
            omega
        · rw [freeFrom, if_pos (Or.inl behind)]
        · intro front last
          rwa [List.append_nil]
      · have below : c.addr < block.toNat := by
          have le : block.toNat ≥ cur.toNat := Nat.le_of_not_lt fun lt => behind (BitVec.lt_def.2 lt)
          have := apart c (by simp)
          omega
        obtain ⟨passed, back, prev', cur', rfl, before, after, first, second, ran, last⟩ :=
          ih turns cur tail (by simp at enough; omega)
            (fun d member => inside d (by simp [member])) sorted
            (fun d member => apart d (by simp [member]))
        refine ⟨c :: passed, back, prev', cur', rfl, ?_, after, ⟨addr, size, first⟩, second, ?_, ?_⟩
        · intro d member
          rcases List.mem_cons.1 member with rfl | member
          · exact below
          · exact before d member
        · rw [freeFrom, if_neg (fun stop => stop.elim behind some_), ran]
        · intro front _
          have step := last (front ++ [c]) (Or.inr ⟨front, c, rfl, addr⟩)
          simpa using step

/-- **free.**  A block that is no part of the free list is put into it and joined with the
blocks it touches. -/
theorem free_spec {blocks rest : List Block} {ptr : BitVec 32} (start : 0 < base)
    (seg : h.Seg h.freeList blocks 0) (gapped : Gapped blocks)
    (inside : ∀ c ∈ blocks, InHeap base c) (here : InHeap base b)
    (apart : ∀ c ∈ blocks, c.Apart b) (addr : (ptr - 4).toNat = b.addr)
    (size : (h.size (ptr - 4)).toNat = b.size)
    (part : Partition base (base + 256) (blocks ++ b :: rest)) :
    ∃ h' blocks', free h ptr = some h' ∧ h'.Seg h'.freeList blocks' 0 ∧ Gapped blocks' ∧
      (∀ c ∈ blocks', InHeap base c) ∧ Partition base (base + 256) (blocks' ++ rest) ∧
      Keeps h h' (b :: blocks) := by
  have short : blocks.length < HEAP_SIZE.toNat + 2 := by
    have le := gapped.length_le fun c member => ⟨(inside c member).low, (inside c member).high⟩
    have := show HEAP_SIZE.toNat = 256 from rfl
    omega
  have distinct : ∀ c ∈ blocks, c.addr ≠ (ptr - 4).toNat := by
    intro c member same
    have away := apart c member
    have := (inside c member).large
    have := here.large
    simp only [Block.Apart, Block.stop] at away
    omega
  obtain ⟨front, back, prev', cur', rfl, before, after, first, second, ran, last⟩ :=
    freeFrom_spec _ 0 seg short start inside gapped distinct
  obtain ⟨frontGapped, backGapped, -⟩ := List.pairwise_append.1 gapped
  have fits : Fits base front b back := by
    refine ⟨frontGapped, backGapped, ?_, ?_, fun a member => inside a (by simp [member]), here,
      fun c member => inside c (by simp [member])⟩
    · intro a member
      have away := apart a (by simp [member])
      have below := before a member
      simp only [Block.Apart, Block.stop] at away ⊢
      omega
    · intro c member
      have away := apart c (by simp [member])
      have above := after c member
      simp only [Block.Apart, Block.stop] at away ⊢
      omega
  obtain ⟨front', b', b'', back', joinsPrev, joinsNext, placed, keeps⟩ :=
    insertBlock_spec start (last [] (Or.inl ⟨rfl, rfl⟩)) fits first second addr size
  obtain ⟨fits', below⟩ := fits.joinsPrev joinsPrev
  obtain ⟨fits'', below', above⟩ := fits'.joinsNext joinsNext below
  refine ⟨_, front' ++ b'' :: back', ran, placed, fits''.gapped below' above, ?_, ?_, ?_⟩
  · intro c member
    simp only [List.mem_append, List.mem_cons] at member
    rcases member with early | rfl | late
    · exact fits''.frontIn c early
    · exact fits''.here
    · exact fits''.backIn c late
  · have moved : (front ++ back ++ b :: rest).Perm (front ++ b :: (back ++ rest)) := by
      rw [List.append_assoc]
      exact List.perm_middle.append_left front
    have joined := partition_joinsNext (partition_joinsPrev (part.perm moved) joinsPrev) joinsNext
    simpa using joined
  · intro x outside
    refine keeps x fun c member => outside c ?_
    simp only [List.mem_append, List.mem_cons] at member ⊢
    tauto

/-! ## malloc -/

/-- A request of `n` bytes with the header cuts `live` off the end of `b` and leaves `kept`,
or takes `b` whole when too little would be left. -/
def Cuts (b : Block) (n : Nat) (kept : List Block) (live : Block) : Prop :=
  (n + 12 ≤ b.size ∧ kept = [⟨b.addr, b.size - n⟩] ∧ live = ⟨b.addr + (b.size - n), n⟩) ∨
    (n ≤ b.size ∧ b.size < n + 12 ∧ kept = [] ∧ live = b)

/-- The comparison of differences is one of sizes. -/
theorem splits_iff (size request : BitVec 32) (large : 8 ≤ size.toNat) (small : size.toNat ≤ 256)
    (low : 8 ≤ request.toNat) (high : request.toNat ≤ 2147483648) :
    (MIN_ALLOC_SIZE + 4).toInt ≤ (size - request - 4).toInt ↔
      request.toNat + 4 + 12 ≤ size.toNat := by
  have least : (MIN_ALLOC_SIZE + 4).toInt = 12 := by decide
  have four : (4 : BitVec 32).toNat = 4 := rfl
  rw [least, BitVec.toInt_eq_toNat_cond, BitVec.toNat_sub, BitVec.toNat_sub, four]
  split
  · omega
  · omega

theorem fits_iff (size : BitVec 32) {request : BitVec 32} (high : request.toNat ≤ 2147483648) :
    request + 4 ≤ size ↔ request.toNat + 4 ≤ size.toNat := by
  have four : (4 : BitVec 32).toNat = 4 := rfl
  rw [BitVec.le_def, toNat_add_of_lt (by rw [four]; omega), four]

theorem splitBlock_spec {request : BitVec 32} (room : base + 256 ≤ 4294967296)
    (fits : Fits base front b back) (seg : h.Seg h.freeList front block)
    (rest : h.Seg (h.next block) back 0) (addr : block.toNat = b.addr)
    (size : (h.size block).toNat = b.size) (low : 8 ≤ request.toNat)
    (high : request.toNat ≤ 2147483648) (splits : request.toNat + 4 + 12 ≤ b.size) :
    let h₁ := h.setSize block (h.size block - (request + 4))
    let newBlock := block + h₁.size block
    let h₂ := h₁.setSize newBlock (request + 4)
    newBlock.toNat = b.addr + (b.size - (request.toNat + 4)) ∧
      (h₂.size newBlock).toNat = request.toNat + 4 ∧
      h₂.Seg h₂.freeList (front ++ ⟨b.addr, b.size - (request.toNat + 4)⟩ :: back) 0 ∧
      Keeps h h₂ [b] := by
  intro h₁ newBlock h₂
  have four : (4 : BitVec 32).toNat = 4 := rfl
  have sum : (request + 4).toNat = request.toNat + 4 := toNat_add_of_lt (by rw [four]; omega)
  have remains : (h.size block - (request + 4)).toNat = b.size - (request.toNat + 4) := by
    rw [toNat_sub_of_le (by rw [sum, size]; omega), sum, size]
  have inside := fits.here
  have high' := inside.high
  have newAddr : newBlock.toNat = b.addr + (b.size - (request.toNat + 4)) := by
    change (block + h₁.size block).toNat = _
    rw [show h₁.size block = h.size block - (request + 4) from h.size_setSize _,
      toNat_add_of_lt (by rw [addr, remains]; omega), addr, remains]
  have clearFront : ∀ p : BitVec 32, b.addr ≤ p.toNat → Heap.Clear p front := fun p above =>
    clear_of_stop_le fits.frontIn fun a member => Nat.le_trans (fits.left a member) above
  have clearBack : ∀ p : BitVec 32, p.toNat + 8 ≤ b.stop → Heap.Clear p back := fun p below =>
    clear_of_le fun c member => Nat.le_trans below (fits.right c member)
  have header : h₂.size block = h₁.size block ∧ h₂.next block = h₁.next block := by
    refine Heap.header_congr fun x _ below => h₁.mem_setSize _ (Or.inl ?_)
    omega
  refine ⟨newAddr, ?_, ?_, ?_⟩
  · change ((h₁.setSize newBlock (request + 4)).size newBlock).toNat = _
    rw [Heap.size_setSize, sum]
  · refine Heap.seg_append.2 ⟨block, ?_, addr, ?_, ?_⟩
    · exact (seg.setSize _ (clearFront block (by omega))).setSize _ (clearFront newBlock (by omega))
    · rw [header.1, show h₁.size block = h.size block - (request + 4) from h.size_setSize _]
      exact remains
    · rw [header.2, show h₁.next block = h.next block from h.next_setSize _]
      refine (rest.setSize _ (clearBack block ?_)).setSize _ (clearBack newBlock ?_)
      · simp only [Block.stop]
        omega
      · simp only [Block.stop]
        omega
  · intro x outside
    have away := outside b (by simp)
    simp only [Block.stop] at away
    change (h₁.setSize newBlock (request + 4)).mem x = h.mem x
    rw [Heap.mem_setSize _ _ (by omega)]
    exact h.mem_setSize _ (by omega)

/-- The loop takes the first block that is big enough. -/
theorem mallocFrom_spec {request : BitVec 32} (turns : Nat) (prev : BitVec 32)
    (passed : List Block) {blocks : List Block} (start : 0 < base) (room : base + 256 ≤ 4294967296)
    (low : 8 ≤ request.toNat) (high : request.toNat ≤ 2147483648)
    (first : h.Seg h.freeList passed block) (second : h.Seg block blocks 0)
    (last : Last prev passed) (enough : blocks.length < turns) (gapped : Gapped (passed ++ blocks))
    (inside : ∀ c ∈ passed ++ blocks, InHeap base c) :
    ((∀ c ∈ blocks, c.size < request.toNat + 4) ∧
        mallocFrom request turns h prev block = some (h, 0)) ∨
      ∃ skipped b back kept live h' newBlock, blocks = skipped ++ b :: back ∧
        Cuts b (request.toNat + 4) kept live ∧
        mallocFrom request turns h prev block = some (h', newBlock + 4) ∧
        newBlock.toNat = live.addr ∧ (h'.size newBlock).toNat = live.size ∧
        h'.Seg h'.freeList (passed ++ skipped ++ (kept ++ back)) 0 ∧ Keeps h h' (passed ++ blocks) := by
  induction blocks generalizing turns prev block passed with
  | nil =>
      obtain ⟨turns, rfl⟩ : ∃ n, turns = n + 1 := ⟨turns - 1, by simp at enough; omega⟩
      have zero : block = 0 := second
      exact Or.inl ⟨by simp, by rw [mallocFrom, if_pos zero]⟩
  | cons b rest ih =>
      obtain ⟨turns, rfl⟩ : ∃ n, turns = n + 1 := ⟨turns - 1, by omega⟩
      obtain ⟨addr, size, tail⟩ := second
      have here := inside b (by simp)
      have small := here.high
      have lowB := here.low
      have some_ : block ≠ 0 := by
        rintro rfl
        have zero : (0 : BitVec 32).toNat = 0 := rfl
        omega
      obtain ⟨sorted, later, below⟩ := List.pairwise_append.1 gapped
      obtain ⟨above, sortedRest⟩ := List.pairwise_cons.1 later
      have fits : Fits base passed b rest := by
        refine ⟨sorted, sortedRest, fun a member => Nat.le_of_lt (below a member b (by simp)),
          fun c member => Nat.le_of_lt (above c member), fun a member => inside a (by simp [member]),
          here, fun c member => inside c (by simp [member])⟩
      have splits := splits_iff (h.size block) request (by rw [size]; exact here.large)
        (by rw [size]; omega) low high
      have whole := fits_iff (h.size block) high
      rw [size] at splits whole
      by_cases tooBig : request.toNat + 4 + 12 ≤ b.size
      · right
        obtain ⟨newAddr, newSize, seg, keeps⟩ :=
          splitBlock_spec room fits first tail addr size low high tooBig
        refine ⟨[], b, rest, _, _, _, _, rfl, Or.inl ⟨tooBig, rfl, rfl⟩, ?_, newAddr, newSize, ?_, ?_⟩
        · rw [mallocFrom, if_neg some_, if_pos (splits.2 tooBig)]
        · simpa using seg
        · intro x outside
          refine keeps x fun c member => outside c ?_
          rw [List.mem_singleton.1 member]
          simp
      · by_cases enough_ : request.toNat + 4 ≤ b.size
        · right
          have clear : ∀ c ∈ b :: rest, ∀ x, c.addr ≤ x →
              (h.setLink prev (h.next block)).mem x = h.mem x := by
            intro c member x from_
            refine setLink_mem fun nonzero => ?_
            rcases last with ⟨-, zero⟩ | ⟨init, a, rfl, prevAddr⟩
            · exact absurd zero nonzero
            · have gap := below a (by simp) c member
              have := (inside a (by simp)).large
              simp only [Block.stop] at gap
              omega
          have header := Heap.header_congr (p := block) fun x from_ _ => clear b (by simp) x (by omega)
          refine ⟨[], b, rest, [], b, h.setLink prev (h.next block), block, rfl,
            Or.inr ⟨enough_, by omega, rfl, rfl⟩, ?_, addr, ?_, ?_, ?_⟩
          · rw [mallocFrom, if_neg some_, if_neg (fun go => tooBig (splits.1 go)),
              if_pos (whole.2 enough_)]
          · rw [header.1, size]
          · rw [List.append_nil, List.nil_append]
            refine Heap.seg_append.2 ⟨h.next block,
              seg_setLink start last sorted (fun a member => inside a (by simp [member])) first, ?_⟩
            exact tail.congr fun c member x from_ _ => clear c (by simp [member]) x from_
          · intro x outside
            refine setLink_mem fun nonzero => ?_
            rcases last with ⟨-, zero⟩ | ⟨init, a, rfl, prevAddr⟩
            · exact absurd zero nonzero
            · have away := outside a (by simp)
              have := (inside a (by simp)).large
              simp only [Block.stop] at away
              omega
        · -- The block is too small, and joins those passed.
          have passedSeg : h.Seg h.freeList (passed ++ [b]) (h.next block) :=
            seg_snoc.2 ⟨block, first, addr, size, rfl⟩
          have skip : mallocFrom request (turns + 1) h prev block =
              mallocFrom request turns h block (h.next block) := by
            rw [mallocFrom, if_neg some_, if_neg (fun go => tooBig (splits.1 go)),
              if_neg (fun go => enough_ (whole.1 go))]
          have found := ih turns block (passed ++ [b]) passedSeg tail (Or.inr ⟨passed, b, rfl, addr⟩)
            (by simp at enough; omega) (by simpa using gapped) (by simpa using inside)
          rw [skip]
          rcases found with ⟨none_, ran⟩ | ⟨skipped, c, back, kept, live, h', newBlock, rfl, cuts, ran,
            newAddr, newSize, seg, keeps⟩
          · refine Or.inl ⟨?_, ran⟩
            intro c member
            rcases List.mem_cons.1 member with rfl | member
            · omega
            · exact none_ c member
          · refine Or.inr ⟨b :: skipped, c, back, kept, live, h', newBlock, rfl, cuts, ran, newAddr,
              newSize, ?_, ?_⟩
            · simpa using seg
            · simpa using keeps

end Specs

/-- Rounding up a request near the top of the range wraps to nothing. -/
theorem toNat_roundSize_mod (size : BitVec 32) :
    (roundSize size).toNat = (max 8 size.toNat + 3) / 4 * 4 % 4294967296 := by
  have least : MIN_ALLOC_SIZE.toNat = 8 := rfl
  have four : (4 : BitVec 32).toNat = 4 := rfl
  have aligned : ∀ n : BitVec 32,
      (if n % 4 ≠ 0 then (n &&& 0xfffffffc) + 4 else n).toNat =
        (n.toNat + 3) / 4 * 4 % 4294967296 := by
    intro n
    have bound := n.isLt
    have rest : n % 4 ≠ 0 ↔ n.toNat % 4 ≠ 0 := by
      rw [ne_eq, ← BitVec.toNat_inj, BitVec.toNat_umod, four]
      rfl
    have down : (n &&& 0xfffffffc).toNat = n.toNat / 4 * 4 := toNat_and_not_three n
    split
    · rename_i uneven
      have := rest.1 uneven
      rw [BitVec.toNat_add, down, four]
      omega
    · rename_i even
      have := Decidable.not_not.1 (mt rest.2 even)
      omega
  unfold roundSize
  split
  · rename_i less
    rw [BitVec.lt_def, least] at less
    dsimp only
    rw [aligned, least, Nat.max_eq_left (Nat.le_of_lt less)]
  · rename_i enough
    rw [BitVec.lt_def, least] at enough
    dsimp only
    rw [aligned, Nat.max_eq_right (Nat.le_of_not_lt enough)]

theorem toNat_roundSize {size : BitVec 32} (small : size.toNat < 2147483648) :
    (roundSize size).toNat = (max 8 size.toNat + 3) / 4 * 4 := by
  rw [toNat_roundSize_mod, Nat.mod_eq_of_lt (by omega)]

section MallocSpec

variable {h : Heap} {base : Nat} {size : BitVec 32} {blocks rest : List Block}

theorem partition_cuts {b live : Block} {front back kept : List Block} {n : Nat} (some_ : 0 < n)
    (part : Partition base (base + 256) (front ++ b :: back ++ rest)) (cuts : Cuts b n kept live) :
    Partition base (base + 256) (front ++ (kept ++ back) ++ live :: rest) := by
  have first : (front ++ b :: back ++ rest).Perm (b :: (front ++ back ++ rest)) := by
    rw [List.append_assoc, List.append_assoc, List.cons_append]
    exact List.perm_middle
  have parts := part.perm first
  rcases cuts with ⟨room, rfl, rfl⟩ | ⟨-, -, rfl, rfl⟩
  · have same : b = ⟨b.addr, b.size - n + n⟩ := by
      rw [Nat.sub_add_cancel (by omega)]
    rw [same] at parts
    have cut := parts.split (by omega) some_
    refine cut.perm ?_
    have last : (front ++ back ++ ⟨b.addr + (b.size - n), n⟩ :: rest).Perm
        (⟨b.addr + (b.size - n), n⟩ :: (front ++ back ++ rest)) := List.perm_middle
    have place : (⟨b.addr, b.size - n⟩ :: (front ++ back ++ ⟨b.addr + (b.size - n), n⟩ :: rest)).Perm
        (front ++ ⟨b.addr, b.size - n⟩ :: (back ++ ⟨b.addr + (b.size - n), n⟩ :: rest)) := by
      rw [List.append_assoc]
      exact List.perm_middle.symm
    simpa using (last.symm.cons _).trans place
  · refine parts.perm ?_
    rw [List.nil_append]
    exact List.perm_middle.symm

/-- **malloc.**  It fails when no block of the list is big enough, and otherwise takes a
block out of the free memory. -/
theorem malloc_spec (start : 0 < base) (room : base + 256 ≤ 4294967296) (nonzero : size ≠ 0)
    (small : size.toNat < 2147483648) (seg : h.Seg h.freeList blocks 0) (gapped : Gapped blocks)
    (inside : ∀ c ∈ blocks, InHeap base c)
    (part : Partition base (base + 256) (blocks ++ rest)) :
    ((∀ c ∈ blocks, c.size < (roundSize size).toNat + 4) ∧ malloc h size = some (h, 0)) ∨
      ∃ h' newBlock live blocks', malloc h size = some (h', newBlock + 4) ∧
        newBlock.toNat = live.addr ∧ (h'.size newBlock).toNat = live.size ∧
        (roundSize size).toNat + 4 ≤ live.size ∧ InHeap base live ∧ h'.Seg h'.freeList blocks' 0 ∧
        Gapped blocks' ∧ (∀ c ∈ blocks', InHeap base c) ∧
        Partition base (base + 256) (blocks' ++ live :: rest) ∧ Keeps h h' blocks := by
  have rounded := toNat_roundSize small
  have low : 8 ≤ (roundSize size).toNat := by omega
  have high : (roundSize size).toNat ≤ 2147483648 := by omega
  have enough : blocks.length < HEAP_SIZE.toNat + 2 := by
    have le := gapped.length_le fun c member => ⟨(inside c member).low, (inside c member).high⟩
    have := show HEAP_SIZE.toNat = 256 from rfl
    omega
  have start_ : malloc h size = mallocFrom (roundSize size) (HEAP_SIZE.toNat + 2) h 0 h.freeList :=
    if_neg nonzero
  have found := mallocFrom_spec (HEAP_SIZE.toNat + 2) 0 [] start room low high rfl seg (Or.inl ⟨rfl, rfl⟩) enough gapped inside
  rw [start_]
  rcases found with ⟨none_, ran⟩ | ⟨skipped, b, back, kept, live, h', newBlock, rfl, cuts, ran, addr,
    liveSize, seg', keeps⟩
  · exact Or.inl ⟨none_, ran⟩
  · have here := inside b (by simp)
    obtain ⟨sorted, later, below⟩ := List.pairwise_append.1 gapped
    obtain ⟨above, sortedBack⟩ := List.pairwise_cons.1 later
    have parts := partition_cuts (by omega) part cuts
    refine Or.inr ⟨h', newBlock, live, skipped ++ (kept ++ back), ran, addr, liveSize, ?_, ?_, seg',
      ?_, ?_, parts, keeps⟩
    · rcases cuts with ⟨big, -, rfl⟩ | ⟨big, -, -, rfl⟩
      · exact Nat.le_refl _
      · exact big
    · rcases cuts with ⟨big, -, rfl⟩ | ⟨big, -, -, rfl⟩
      · have := here.low
        have := here.high
        exact ⟨by simp only; omega, by simp only; omega, by simp only; omega⟩
      · exact here
    · refine List.pairwise_append.2 ⟨sorted, ?_, ?_⟩
      · rcases cuts with ⟨big, rfl, -⟩ | ⟨-, -, rfl, -⟩
        · refine List.pairwise_cons.2 ⟨fun c member => ?_, sortedBack⟩
          have gap := above c member
          simp only [Block.stop] at gap ⊢
          omega
        · exact sortedBack
      · intro a first c second
        rcases cuts with ⟨big, rfl, -⟩ | ⟨-, -, rfl, -⟩
        · rcases List.mem_cons.1 second with rfl | second
          · exact below a first b (by simp)
          · exact below a first c (List.mem_cons_of_mem _ second)
        · exact below a first c (List.mem_cons_of_mem _ second)
    · intro c member
      simp only [List.mem_append] at member
      rcases member with early | middle | late
      · exact inside c (by simp [early])
      · rcases cuts with ⟨big, rfl, -⟩ | ⟨-, -, rfl, -⟩
        · rw [List.mem_singleton.1 middle]
          have := here.low
          have := here.high
          exact ⟨by simp only; omega, by simp only; omega, by simp only; omega⟩
        · cases middle
      · exact inside c (by simp [late])

end MallocSpec

end Buenos.Userland
