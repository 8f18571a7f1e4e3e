/-
# Fs.FlatAlloc -- what the FlatFS allocator does

Every helper that takes blocks from the bitmap either takes all it needs or runs out.
`Took s t new` says that exactly the blocks `new`, all free before, have been marked
in the bitmap buffer; `Refused s t kept` says that the bitmap ran full, and that no
block marked before has been written, those in `kept` excepted.

`flatfsAllocBlocks_cases` is the result for a whole request: a file of `k` blocks gets
`n` more (`Grown`), or the bitmap had fewer free blocks than the request needs.
-/
import Buenos.Fs.FlatMap
import Mathlib.Data.List.Perm.Basic

namespace Buenos.Fs

open Buenos.Lib Buenos.Theory

set_option autoImplicit false

namespace Volume

/-- Marked in the bitmap buffer. -/
def marked (s : Flat) (b : Nat) : Bool := bitmapGet (s.buffer .bat) b

/-- Blocks still free in the bitmap buffer. -/
def room (s : Flat) : Nat := free (s.buffer .bat) s.totalblocks

/-- From `s` to `t` exactly the blocks `new` were taken from the bitmap. -/
structure Took (s t : Flat) (new : List Nat) : Prop where
  same : Volume.Same s t
  nodup : new.Nodup
  fresh : ∀ b ∈ new, b < s.totalblocks ∧ s.marked b = false
  marked : ∀ b, t.marked b = true ↔ s.marked b = true ∨ b ∈ new
  room : s.room = t.room + new.length
  refused : t.refused = s.refused

/-- From `s` to `t` the bitmap ran full; marked blocks outside `except` are kept. -/
structure Refused (s t : Flat) (except : List Nat) : Prop where
  same : Volume.Same s t
  kept : ∀ b, s.marked b = true → b ∉ except → t.blocks b = s.blocks b
  refused : s.refused < t.refused

variable {s t u : Flat} {new more : List Nat}

theorem Took.refl (s : Flat) : Took s s [] where
  same := .refl s
  nodup := List.nodup_nil
  fresh := by simp
  marked := by simp
  room := by simp
  refused := rfl

theorem Took.append (first : Took s t new) (second : Took t u more) : Took s u (new ++ more) where
  same := first.same.trans second.same
  nodup := by
    rw [List.nodup_append]
    refine ⟨first.nodup, second.nodup, ?_⟩
    rintro b inNew c inMore rfl
    have unmarked := (second.fresh b inMore).2
    rw [(first.marked b).2 (.inr inNew)] at unmarked
    cases unmarked
  fresh := by
    intro b mem
    rcases List.mem_append.1 mem with inNew | inMore
    · exact first.fresh b inNew
    · obtain ⟨inside, unmarked⟩ := second.fresh b inMore
      rw [first.same.totalblocks] at inside
      refine ⟨inside, ?_⟩
      cases before : s.marked b with
      | false => rfl
      | true =>
          rw [(first.marked b).2 (.inl before)] at unmarked
          cases unmarked
  marked := by
    intro b
    rw [second.marked, first.marked, List.mem_append, or_assoc]
  room := by
    rw [first.room, second.room, List.length_append]
    omega
  refused := second.refused.trans first.refused

theorem Took.perm (took : Took s t new) (perm : new.Perm more) : Took s t more where
  same := took.same
  nodup := perm.nodup_iff.1 took.nodup
  fresh := fun b mem => took.fresh b (perm.mem_iff.2 mem)
  marked := fun b => by rw [took.marked, perm.mem_iff]
  room := by rw [took.room, perm.length_eq]
  refused := took.refused

/-- A later step of the kind that leaves the bitmap alone. -/
theorem Took.then (took : Took s t new) (same : Volume.Same t u)
    (bat : u.buffer .bat = t.buffer .bat) (refused : u.refused = t.refused) : Took s u new where
  same := took.same.trans same
  nodup := took.nodup
  fresh := took.fresh
  marked := fun b => by
    rw [← took.marked]
    unfold Volume.marked
    rw [bat]
  room := by
    rw [took.room]
    unfold Volume.room
    rw [bat, same.totalblocks]
  refused := refused.trans took.refused

theorem Took.not_marked (took : Took s t new) {b : Nat} (marked : s.marked b = true) :
    b ∉ new := by
  intro mem
  have := (took.fresh b mem).2
  rw [marked] at this
  cases this

theorem Took.keeps (took : Took s t new) {b : Nat} (marked : s.marked b = true) :
    t.marked b = true :=
  (took.marked b).2 (.inl marked)

/-- Running full after a part that only wrote new blocks. -/
theorem Refused.after {except : List Nat} (took : Took s t new)
    (kept : ∀ b, s.marked b = true → b ∉ except → t.blocks b = s.blocks b)
    (refused : Refused t u except) : Refused s u except where
  same := took.same.trans refused.same
  kept := fun b marked apart =>
    (refused.kept b (took.keeps marked) apart).trans (kept b marked apart)
  refused := by
    rw [← took.refused]
    exact refused.refused

theorem Refused.weaken {except wider : List Nat} (refused : Refused s t except)
    (le : ∀ b ∈ except, b ∈ wider) : Refused s t wider where
  same := refused.same
  kept := fun b marked apart => refused.kept b marked fun mem => apart (le b mem)
  refused := refused.refused

/-! ## One block -/

/-- After block `p` has been taken and its number stored in word `i` of buffer `b`. -/
def taken (s : Flat) (b : FlatBuffer) (i p : Nat) : Flat :=
  (s.setBuffer .bat (bitmapSet (s.buffer .bat) p true)).setWord b i (BitVec.ofNat 32 p)

theorem taken_marked (s : Flat) {b : FlatBuffer} (i p q : Nat) (other : b ≠ .bat) :
    (s.taken b i p).marked q = true ↔ s.marked q = true ∨ q = p := by
  unfold taken marked
  rw [Volume.setWord_buffer, Function.update_of_ne (Ne.symm other), Volume.setBuffer_buffer,
    Function.update_self, bitmapGet_bitmapSet]
  by_cases same : q = p
  · simp [same]
  · simp [same]

theorem toNat_ofNat {p : Nat} (small : p < 4096) : (BitVec.ofNat 32 p).toNat = p := by
  rw [BitVec.toNat_ofNat]
  omega

/-- **One block.**  The first free one, or none is free. -/
theorem flatfsBmAlloc_cases (s : Flat) {b : FlatBuffer} (i : Nat) (other : b ≠ .bat) :
    (∃ p, flatfsBmAlloc b i s = .returned (true, s.taken b i p) ∧ Took s (s.taken b i p) [p]) ∨
      ∃ t, flatfsBmAlloc b i s = .returned (false, t) ∧ s.room = 0 ∧ Refused s t [] := by
  cases found : bitmapFindnset (s.buffer .bat) s.totalblocks with
  | none =>
      right
      refine ⟨{ s.setWord b i 0xffffffff#32 with refused := s.refused + 1 }, ?_, ?_, ?_⟩
      · simp only [flatfsBmAlloc, found]
      · exact free_eq_zero (bitmapFindnset_none found)
      · exact ⟨⟨rfl, rfl, rfl, rfl⟩, fun _ _ _ => rfl, Nat.lt_succ_self _⟩
  | some pair =>
      left
      obtain ⟨p, bat⟩ := pair
      obtain ⟨inside, clear, _, rfl⟩ := bitmapFindnset_some found
      refine ⟨p, ?_, ?_⟩
      · simp only [flatfsBmAlloc, found]
        rfl
      · exact
          { same := ⟨rfl, rfl, rfl, rfl⟩
            nodup := List.nodup_singleton p
            fresh := fun q mem => by
              obtain rfl := List.mem_singleton.1 mem
              exact ⟨inside, clear⟩
            marked := fun q => by rw [taken_marked s i p q other, List.mem_singleton]
            room := by
              have bat : (s.taken b i p).buffer .bat = bitmapSet (s.buffer .bat) p true := by
                unfold taken
                rw [Volume.setWord_buffer, Function.update_of_ne (Ne.symm other),
                  Volume.setBuffer_buffer, Function.update_self]
              unfold room
              rw [bat, free_bitmapSet inside clear]
              rfl
            refused := rfl }

/-! ## Several blocks -/

/-- Blocks `new` were taken and zeroed, and their numbers stored in buffer `b` from word
`i` on. -/
structure Filled (s t : Flat) (b : FlatBuffer) (i : Nat) (new : List Nat) : Prop where
  took : Took s t new
  stored : ∀ j, ∀ less : j < new.length, (t.buffer b (i + j)).toNat = new[j]
  words : ∀ w, w < i ∨ i + new.length ≤ w → t.buffer b w = s.buffer b w
  others : ∀ c, c ≠ b → c ≠ .bat → t.buffer c = s.buffer c
  zero : ∀ x ∈ new, t.blocks x = zeroblock
  kept : ∀ x, x ∉ new → t.blocks x = s.blocks x

theorem Filled.refl (s : Flat) (b : FlatBuffer) (i : Nat) : Filled s s b i [] where
  took := .refl s
  stored := by simp
  words := fun _ _ => rfl
  others := fun _ _ _ => rfl
  zero := by simp
  kept := fun _ _ => rfl

/-- One block taken and zeroed. -/
theorem filled_one {b : FlatBuffer} {i p : Nat} (ready : s.Ready)
    (other : b ≠ .bat) (took : Took s (s.taken b i p) [p]) :
    Filled s ((s.taken b i p).didWrite p zeroblock) b i [p] where
  took := took.then ⟨rfl, rfl, rfl, rfl⟩ rfl rfl
  stored := by
    intro j less
    have inside := (took.fresh p (List.mem_singleton_self p)).1
    have small := ready.small
    obtain rfl : j = 0 := by simpa using less
    simp only [Volume.didWrite_buffer, taken, Volume.setWord_buffer, Function.update_self,
      Nat.add_zero, List.getElem_singleton]
    exact toNat_ofNat (by omega)
  words := by
    intro w apart
    have ne : w ≠ i := by
      simp only [List.length_singleton] at apart
      omega
    simp only [Volume.didWrite_buffer, taken, Volume.setWord_buffer, Function.update_self,
      Function.update_of_ne ne, Volume.setBuffer_buffer, Function.update_of_ne other]
  others := by
    intro c apart notBat
    simp only [Volume.didWrite_buffer, taken, Volume.setWord_buffer, Volume.setBuffer_buffer,
      Function.update_of_ne apart, Function.update_of_ne notBat]
  zero := by
    intro x mem
    obtain rfl := List.mem_singleton.1 mem
    simp
  kept := by
    intro x apart
    have ne : x ≠ p := fun h => apart (by simp [h])
    simp [Function.update_of_ne ne, taken]

theorem Filled.cons {b : FlatBuffer} {i p : Nat} (first : Filled s t b i [p])
    (rest : Filled t u b (i + 1) new) : Filled s u b i (p :: new) where
  took := first.took.append rest.took
  stored := by
    intro j less
    cases j with
    | zero =>
        rw [rest.words _ (.inl (by omega))]
        exact first.stored 0 (by simp)
    | succ j =>
        have := rest.stored j (by simpa using less)
        rw [show i + (j + 1) = i + 1 + j by omega]
        simpa using this
  words := by
    intro w apart
    simp only [List.length_cons] at apart
    rw [rest.words w (by omega), first.words w (by simp only [List.length_singleton]; omega)]
  others := fun c apart notBat => (rest.others c apart notBat).trans (first.others c apart notBat)
  zero := by
    intro x mem
    by_cases later : x ∈ new
    · exact rest.zero x later
    · rw [rest.kept x later]
      exact first.zero x (by simpa [later] using mem)
  kept := by
    intro x apart
    simp only [List.mem_cons, not_or] at apart
    rw [rest.kept x apart.2, first.kept x (by simpa using apart.1)]

/-- **The allocation loops**: `n` blocks, or fewer than `n` were free. -/
theorem allocZeroed_cases {b : FlatBuffer} (other : b ≠ .bat) (n : Nat) :
    ∀ (i : Nat) (s : Flat), s.Ready →
      (∃ t new, allocZeroed b i n s = .returned (true, t) ∧ new.length = n ∧ Filled s t b i new) ∨
        ∃ t, allocZeroed b i n s = .returned (false, t) ∧ s.room < n ∧ Refused s t [] := by
  induction n with
  | zero =>
      intro i s _
      left
      exact ⟨s, [], rfl, rfl, .refl s b i⟩
  | succ n ih =>
      intro i s ready
      rcases flatfsBmAlloc_cases s i other with ⟨p, ran, took⟩ | ⟨t, ran, full, refused⟩
      · have one := filled_one ready other took
        have inside := (took.fresh p (List.mem_singleton_self p)).1
        have ready' := ready.same took.same
        have name : (s.taken b i p).buffer b i = BitVec.ofNat 32 p := by simp [taken]
        have small := ready.small
        have number : (BitVec.ofNat 32 p).toNat = p := toNat_ofNat (by omega)
        have step : allocZeroed b i (n + 1) s =
            allocZeroed b (i + 1) n ((s.taken b i p).didWrite p zeroblock) := by
          rw [allocZeroed, Prog.bind_of_returned ran]
          simp only [if_true, Prog.bind_gets_apply, name]
          rw [Prog.bind_of_returned (Volume.writeBlock_ready ready' zeroblock
            (by rw [number, took.same.totalblocks]; exact inside)), number]
          rfl
        rw [step]
        rcases ih (i + 1) _ (ready.same one.took.same) with
          ⟨t, new, ran, count, filled⟩ | ⟨t, ran, full, refused⟩
        · left
          exact ⟨t, p :: new, ran, by simp [count], one.cons filled⟩
        · right
          refine ⟨t, ran, ?_, ?_⟩
          · rw [one.took.room]
            simpa using full
          · exact .after one.took (fun x marked _ => one.kept x (one.took.not_marked marked)) refused
      · right
        refine ⟨t, ?_, by omega, refused⟩
        rw [allocZeroed, Prog.bind_of_returned ran]
        rfl

/-! ## One table -/

/-- The number of the table that `todbl` stands for. -/
def tableIndex (todbl : Option Nat) : Nat := todbl.elim 0 (· + 1)

theorem indBuffer_ne (todbl : Option Nat) :
    indBuffer todbl ≠ .bat ∧ indBuffer todbl ≠ .si ∧ indBuffer todbl ≠ .md := by
  cases todbl <;> simp [indBuffer]

/-- Where the table named by `todbl` is stored. -/
def pointer (s : Flat) (todbl : Option Nat) : Word := s.buffer (indBuffer todbl) (indWord todbl)

theorem pointer_eq (s : Flat) (todbl : Option Nat) :
    s.pointer todbl = tableAt (s.buffer .inode) (s.buffer .di) (tableIndex todbl) := by
  cases todbl <;> simp [pointer, tableAt, tableIndex, indBuffer, indWord]

/-- Table `table` was given the blocks `data` from slot `offset` on. -/
structure FilledTable (s t : Flat) (todbl : Option Nat) (table offset : Nat) (data : List Nat) :
    Prop where
  took : Took s t data
  buffers : ∀ c, c ≠ .bat → c ≠ .si → t.buffer c = s.buffer c
  before : ∀ j < offset, t.blocks table j = s.blocks table j
  entries : ∀ j, ∀ less : j < data.length, (t.blocks table (offset + j)).toNat = data[j]
  past : ∀ j, offset + data.length ≤ j → j < 128 → t.blocks table j = 0
  zero : ∀ x ∈ data, t.blocks x = zeroblock
  kept : ∀ x, x ∉ data → x ≠ table → t.blocks x = s.blocks x

theorem fillIndir_cases (ready : s.Ready) (todbl : Option Nat) (n offset : Nat) {table : Nat}
    (names : (s.pointer todbl).toNat = table) (inside : table < s.totalblocks)
    (marked : s.marked table = true) :
    (∃ t data, fillIndir todbl n offset s = .returned (true, t) ∧ data.length = n ∧
        FilledTable s t todbl table offset data) ∨
      ∃ t, fillIndir todbl n offset s = .returned (false, t) ∧ s.room < n ∧ Refused s t [] := by
  obtain ⟨notBat, notSi, -⟩ := indBuffer_ne todbl
  have loaded : readBlock (s.pointer todbl) .si s = .returned (true, s.didRead table .si) := by
    rw [Volume.readBlock_ready ready .si (by rw [names]; exact inside), names]
  have step : fillIndir todbl n offset s =
      (do
        let filled ← allocZeroed .si offset n
        if filled then do
          clearWords .si (offset + n) FLATFS_BLOCKS_SINDIR
          let ind ← Prog.gets fun s => s.buffer (indBuffer todbl) (indWord todbl)
          writeBuffer ind .si
        else pure false : Prog Flat Bool) (s.didRead table .si) := by
    rw [fillIndir, Prog.bind_gets_apply]
    exact Prog.bind_of_returned loaded
  have ready' : (s.didRead table .si).Ready := ready.same (Volume.Same.didRead table FlatBuffer.si)
  rcases allocZeroed_cases (b := .si) (by decide) n offset _ ready' with
    ⟨t, data, ran, count, filled⟩ | ⟨t, ran, full, refused⟩
  · left
    have took : Took s t data := ((Took.refl s).then (.didRead table .si) rfl rfl).append filled.took
    have keptBuffer : t.buffer (indBuffer todbl) = s.buffer (indBuffer todbl) := by
      rw [filled.others _ notSi notBat, Volume.didRead_buffer, Function.update_of_ne notSi]
    have apart : table ∉ data := took.not_marked marked
    let cleared : Block := fun i => if offset + n ≤ i ∧ i < 128 then 0 else t.buffer .si i
    refine ⟨(t.setBuffer .si cleared).didWrite table cleared, data, ?_, count, ?_⟩
    · rw [step, Prog.bind_of_returned ran]
      simp only [if_true]
      have same : Volume.Same s (t.setBuffer .si cleared) :=
        took.same.trans (Volume.Same.setBuffer FlatBuffer.si cleared)
      have name : ((t.setBuffer .si cleared).buffer (indBuffer todbl) (indWord todbl)).toNat =
          table := by
        rw [Volume.setBuffer_buffer, Function.update_of_ne notSi, keptBuffer]
        exact names
      have written := Volume.writeBuffer_ready (ready.same same)
        ((t.setBuffer .si cleared).buffer (indBuffer todbl) (indWord todbl)) .si
        (by rw [name, same.totalblocks]; exact inside)
      rw [name] at written
      rw [clearWords, Prog.bind_modify_apply, Prog.bind_gets_apply]
      exact written
    · exact
        { took := took.then ⟨rfl, rfl, rfl, rfl⟩ rfl rfl
          buffers := fun c other apart => by
            simp only [Volume.didWrite_buffer, Volume.setBuffer_buffer,
              Function.update_of_ne apart]
            rw [filled.others c apart other, Volume.didRead_buffer, Function.update_of_ne apart]
          before := fun j less => by
            have old : t.buffer .si j = s.blocks table j := by
              rw [filled.words j (.inl less), Volume.didRead_buffer, Function.update_self]
            simp [cleared, old, show ¬ offset + n ≤ j by omega]
          entries := fun j less => by
            have := filled.stored j less
            simpa [cleared, show ¬ n ≤ j by omega] using this
          past := fun j low high => by
            simp [cleared, high, show offset + n ≤ j by omega]
          zero := fun x mem => by
            have ne : x ≠ table := fun h => apart (h ▸ mem)
            simpa [Function.update_of_ne ne] using filled.zero x mem
          kept := fun x notData ne => by
            simpa [Function.update_of_ne ne] using filled.kept x notData }
  · right
    refine ⟨t, ?_, full, ?_⟩
    · rw [step, Prog.bind_of_returned ran]
      rfl
    · exact .after (((Took.refl s).then (.didRead table .si) rfl rfl)) (fun _ _ _ => rfl) refused

/-- Table `table`, taken now if it was not there, was given the blocks `data` from slot
`offset` on. -/
structure Indirected (s t : Flat) (todbl : Option Nat) (table offset : Nat)
    (data tabs : List Nat) : Prop where
  took : Took s t (data ++ tabs)
  origin : (tabs = [] ∧ s.pointer todbl ≠ 0 ∧ (s.pointer todbl).toNat = table) ∨
    (tabs = [table] ∧ s.pointer todbl = 0)
  named : (t.pointer todbl).toNat = table
  words : ∀ w, w ≠ indWord todbl → t.buffer (indBuffer todbl) w = s.buffer (indBuffer todbl) w
  buffers : ∀ c, c ≠ .bat → c ≠ .si → c ≠ indBuffer todbl → t.buffer c = s.buffer c
  before : ∀ j < offset, t.blocks table j = s.blocks table j
  entries : ∀ j, ∀ less : j < data.length, (t.blocks table (offset + j)).toNat = data[j]
  past : ∀ j, offset + data.length ≤ j → j < 128 → t.blocks table j = 0
  zero : ∀ x ∈ data, t.blocks x = zeroblock
  kept : ∀ x, x ∉ data → x ≠ table → t.blocks x = s.blocks x

/-- **One table**: `n` blocks for it, and the table itself if it is new. -/
theorem flatfsAllocIndir_cases (ready : s.Ready) (todbl : Option Nat) (n offset : Nat)
    (index : indWord todbl < 128)
    (known : s.pointer todbl ≠ 0 → (s.pointer todbl).toNat < s.totalblocks ∧
      s.marked (s.pointer todbl).toNat = true) :
    (∃ t table data tabs, flatfsAllocIndir todbl n offset s = .returned (true, t) ∧
        data.length = n ∧ Indirected s t todbl table offset data tabs) ∨
      ∃ t, flatfsAllocIndir todbl n offset s = .returned (false, t) ∧
        s.room < n + (if s.pointer todbl = 0 then 1 else 0) ∧ Refused s t [] := by
  obtain ⟨notBat, notSi, -⟩ := indBuffer_ne todbl
  have step : flatfsAllocIndir todbl n offset s =
      (do
        let got ← if s.pointer todbl = 0 then flatfsBmAlloc (indBuffer todbl) (indWord todbl)
          else pure true
        if got then fillIndir todbl n offset else pure false : Prog Flat Bool) s := by
    rw [flatfsAllocIndir]
    have ok : Prog.assert (fun _ : Flat => decide (indWord todbl < FLATFS_BLOCKS_SINDIR))
        .outOfBounds s = .returned ((), s) := by
      rw [Prog.assert_apply]
      simp [FLATFS_BLOCKS_SINDIR, index]
    rw [Prog.bind_of_returned ok]
    rfl
  by_cases missing : s.pointer todbl = 0
  · rw [step]
    simp only [missing, if_true]
    rcases flatfsBmAlloc_cases s (indWord todbl) notBat with ⟨p, ran, took⟩ | ⟨t, ran, full, refused⟩
    · have inside := (took.fresh p (List.mem_singleton_self p)).1
      have small := ready.small
      have names : ((s.taken (indBuffer todbl) (indWord todbl) p).pointer todbl).toNat = p := by
        simp only [pointer, taken, setWord_buffer, Function.update_self]
        exact toNat_ofNat (by omega)
      have marked := (took.marked p).2 (.inr (List.mem_singleton_self p))
      rw [Prog.bind_of_returned ran]
      simp only [if_true]
      rcases fillIndir_cases (ready.same took.same) todbl n offset names
        (by rw [took.same.totalblocks]; exact inside) marked with
        ⟨t, data, ran, count, filled⟩ | ⟨t, ran, full, refused⟩
      · left
        refine ⟨t, p, data, [p], ran, count, ?_⟩
        exact
          { took := (took.append filled.took).perm List.perm_append_comm
            origin := .inr ⟨rfl, missing⟩
            named := by
              unfold pointer at names ⊢
              rw [filled.buffers _ notBat notSi]
              exact names
            words := fun w apart => by
              rw [filled.buffers _ notBat notSi]
              simp only [taken, setWord_buffer, Function.update_self, setBuffer_buffer,
                Function.update_of_ne apart, Function.update_of_ne notBat]
            buffers := fun c other apart elsewhere => by
              rw [filled.buffers c other apart]
              simp only [taken, setWord_buffer, setBuffer_buffer,
                Function.update_of_ne elsewhere, Function.update_of_ne other]
            before := filled.before
            entries := filled.entries
            past := filled.past
            zero := filled.zero
            kept := filled.kept }
      · right
        refine ⟨t, ran, ?_, .after took (fun _ _ _ => rfl) refused⟩
        have := took.room
        simp only [List.length_singleton] at this
        omega
    · right
      refine ⟨t, ?_, by omega, refused⟩
      rw [Prog.bind_of_returned ran]
      rfl
  · obtain ⟨inside, marked⟩ := known missing
    rw [step]
    simp only [missing, if_false, Nat.add_zero, Prog.bind_pure_apply, if_true]
    rcases fillIndir_cases ready todbl n offset rfl inside marked with
      ⟨t, data, ran, count, filled⟩ | ⟨t, ran, full, refused⟩
    · left
      refine ⟨t, (s.pointer todbl).toNat, data, [], ran, count, ?_⟩
      exact
        { took := by
            rw [List.append_nil]
            exact filled.took
          origin := .inl ⟨rfl, missing, rfl⟩
          named := by
            unfold pointer
            rw [filled.buffers _ notBat notSi]
          words := fun w _ => by rw [filled.buffers _ notBat notSi]
          buffers := fun c other apart _ => filled.buffers c other apart
          before := filled.before
          entries := filled.entries
          past := filled.past
          zero := filled.zero
          kept := filled.kept }
    · exact .inr ⟨t, ran, full, refused⟩

/-! ## A file grows -/

/-- The data blocks of a file of `k` blocks, as the buffers map them. -/
def fileBlocks (s : Flat) (k : Nat) : List Nat :=
  mapped s.blocks (s.buffer .inode) (s.buffer .di) k

def fileTables (s : Flat) (k : Nat) : List Nat := tabled (s.buffer .inode) (s.buffer .di) k

def fileTable (s : Flat) (c : Nat) : Word := tableAt (s.buffer .inode) (s.buffer .di) c

/-- The buffers hold a file of `k` blocks whose tables below `limit` are known. -/
structure Sound (s : Flat) (k limit : Nat) : Prop where
  system : ∀ b < 3, s.marked b = true
  nodup : (s.fileTables k).Nodup
  known : ∀ b ∈ s.fileTables k, 0 < b ∧ b < s.totalblocks ∧ s.marked b = true
  rest : ∀ c, tables k ≤ c → c < limit → s.fileTable c = 0
  slots : ∀ c < tables k, ∀ j < 128, k ≤ 7 + 128 * c + j → s.blocks (s.fileTable c).toNat j = 0

/-- The file of `k` blocks has become one of `k + n`, with `data` added at its end and the
tables `tabs` for it. -/
structure Grown (s t : Flat) (k n : Nat) (data tabs : List Nat) : Prop where
  took : Took s t (data ++ tabs)
  count : data.length = n
  blocks : t.fileBlocks (k + n) = s.fileBlocks k ++ data
  tables : t.fileTables (k + n) = s.fileTables k ++ tabs
  zero : ∀ x ∈ data, t.blocks x = zeroblock
  kept : ∀ x, x ∉ data → x ∉ t.fileTables (k + n) → t.blocks x = s.blocks x
  inode : ∀ w, w = 0 ∨ 8 < w → t.buffer .inode w = s.buffer .inode w
  md : t.buffer .md = s.buffer .md

theorem Grown.trans {k n m limit : Nat} {data data' tabs tabs' : List Nat}
    (sound : Sound s k limit) (first : Grown s t k n data tabs)
    (second : Grown t u (k + n) m data' tabs') :
    Grown s u k (n + m) (data ++ data') (tabs ++ tabs') := by
  have same : k + n + m = k + (n + m) := by omega
  have tables : u.fileTables (k + (n + m)) = s.fileTables k ++ (tabs ++ tabs') := by
    rw [← same, second.tables, first.tables, List.append_assoc]
  refine
    { took := (first.took.append second.took).perm ?_
      count := by rw [List.length_append, first.count, second.count]
      blocks := by rw [← same, second.blocks, first.blocks, List.append_assoc]
      tables := tables
      zero := ?_
      kept := ?_
      inode := fun w apart => (second.inode w apart).trans (first.inode w apart)
      md := second.md.trans first.md }
  · simp only [List.append_assoc]
    apply List.Perm.append_left
    rw [← List.append_assoc, ← List.append_assoc]
    apply List.Perm.append_right
    exact List.perm_append_comm
  · intro x mem
    by_cases later : x ∈ data'
    · exact second.zero x later
    · have early : x ∈ data := by simpa [later] using mem
      have isNew := List.mem_append_left tabs early
      rw [second.kept x later, first.zero x early]
      intro table
      rw [second.tables, first.tables] at table
      simp only [List.mem_append] at table
      rcases table with (old | tab) | tab
      · have := (first.took.fresh x isNew).2
        rw [(sound.known x old).2.2] at this
        cases this
      · exact (List.nodup_append.1 first.took.nodup).2.2 x early x tab rfl
      · exact second.took.not_marked ((first.took.marked x).2 (.inr isNew))
          (List.mem_append_right _ tab)
  · intro x notData notTable
    simp only [List.mem_append, not_or] at notData
    rw [← same] at notTable
    rw [second.kept x notData.2 notTable, first.kept x notData.1]
    intro table
    exact notTable (by rw [second.tables]; exact List.mem_append_left _ table)

/-! ## One table of a file -/

section Table

variable {todbl : Option Nat} {table offset : Nat} {data tabs : List Nat}
  (filled : Indirected s t todbl table offset data tabs)

include filled

theorem Indirected.inode {w : Nat} (apart : w ≠ indirWord) :
    t.buffer .inode w = s.buffer .inode w := by
  cases todbl with
  | none => exact filled.words w apart
  | some i => rw [filled.buffers .inode (by decide) (by decide) (by simp [indBuffer])]

theorem Indirected.fileTable_ne {c : Nat} (other : c ≠ tableIndex todbl) :
    t.fileTable c = s.fileTable c := by
  unfold fileTable tableAt
  by_cases first : c = 0
  · subst first
    cases todbl with
    | none => exact absurd rfl other
    | some i => rw [if_pos rfl, if_pos rfl, filled.buffers .inode (by decide) (by decide)
        (by simp [indBuffer])]
  · rw [if_neg first, if_neg first]
    cases todbl with
    | none => rw [filled.buffers .di (by decide) (by decide) (by simp [indBuffer])]
    | some i =>
        apply filled.words
        simp only [tableIndex, Option.elim_some] at other
        simp only [indWord, Option.getD_some]
        omega

theorem Indirected.fileTable_self : (t.fileTable (tableIndex todbl)).toNat = table := by
  rw [fileTable, ← pointer_eq]
  exact filled.named

theorem Indirected.md : t.buffer .md = s.buffer .md :=
  filled.buffers .md (by decide) (by decide) (indBuffer_ne todbl).2.2.symm

/-- The blocks marked before are kept, the table excepted. -/
theorem Indirected.kept_marked {x : Nat} (marked : s.marked x = true) (ne : x ≠ table) :
    t.blocks x = s.blocks x :=
  filled.kept x (fun mem => filled.took.not_marked marked (List.mem_append_left _ mem)) ne

end Table

section GrowTable

variable {k m limit table : Nat} {todbl : Option Nat} {data tabs : List Nat}
  (sound : Sound s k limit) (large : 7 ≤ k) (some : 0 < m) (fits : slotOf k + m ≤ 128)
  (within : tableOf k < limit) (index : tableIndex todbl = tableOf k) (count : data.length = m)
  (filled : Indirected s t todbl table (slotOf k) data tabs)

include sound large within index filled

/-- Either the table is new, or it is the file's last one. -/
theorem table_origin :
    (slotOf k = 0 ∧ tables k = tableOf k ∧ tabs = [table]) ∨
      (slotOf k ≠ 0 ∧ tables k = tableOf k + 1 ∧ tabs = [] ∧
        (s.fileTable (tableOf k)).toNat = table) := by
  have named : s.pointer todbl = s.fileTable (tableOf k) := by rw [pointer_eq, index]; rfl
  by_cases full : slotOf k = 0
  · left
    have none := sound.rest (tableOf k) (by rw [tables_of_full large full]) within
    rcases filled.origin with ⟨-, there, -⟩ | ⟨new, -⟩
    · rw [named, none] at there
      exact absurd rfl there
    · exact ⟨full, tables_of_full large full, new⟩
  · right
    have count := tables_of_partial large full
    have mem : (s.fileTable (tableOf k)).toNat ∈ s.fileTables k :=
      mem_tabled.2 ⟨_, by omega, rfl⟩
    rcases filled.origin with ⟨none, -, same⟩ | ⟨-, zero⟩
    · exact ⟨full, count, none, by rw [← named]; exact same⟩
    · have := (sound.known _ mem).1
      rw [← named, zero] at this
      simp at this

/-- The table is not one of the file's earlier tables. -/
theorem table_ne {c : Nat} (early : c < tables k) (other : c ≠ tableOf k) :
    (s.fileTable c).toNat ≠ table := by
  have mem : (s.fileTable c).toNat ∈ s.fileTables k := mem_tabled.2 ⟨c, early, rfl⟩
  rcases table_origin sound large within index filled with ⟨-, -, new⟩ | ⟨-, last, -, same⟩
  · intro eq
    have := filled.took.not_marked (sound.known _ mem).2.2
    rw [eq, new] at this
    simp at this
  · intro eq
    rw [← same] at eq
    apply other
    have injective := List.inj_on_of_nodup_map sound.nodup
    exact injective (List.mem_range.2 early) (List.mem_range.2 (by omega)) eq

/-- The old blocks stay where they are. -/
theorem table_blockAt {j : Nat} (less : j < k) :
    blockAt t.blocks (t.buffer .inode) (t.buffer .di) j =
      blockAt s.blocks (s.buffer .inode) (s.buffer .di) j := by
  unfold blockAt
  by_cases small : j < 7
  · rw [if_pos small, if_pos small]
    apply filled.inode
    unfold directWord indirWord
    omega
  · rw [if_neg small, if_neg small]
    have early := tableOf_lt (by omega : 7 ≤ j) less
    by_cases last : tableOf j = tableOf k
    · rcases table_origin sound large within index filled with ⟨-, new, -⟩ | ⟨-, -, -, same⟩
      · omega
      · have before := filled.before (slotOf j) (by unfold tableOf at last; unfold slotOf; omega)
        have self := filled.fileTable_self
        rw [index] at self
        unfold fileTable at self same
        rw [last, self, same]
        exact before
    · have kept := filled.kept_marked
        (sound.known _ (mem_tabled.2 ⟨_, early, rfl⟩)).2.2
        (table_ne sound large within index filled early last)
      have ne := filled.fileTable_ne (c := tableOf j) (by rw [index]; exact last)
      unfold fileTable at ne kept
      rw [ne, kept]

include some fits

theorem table_tables : t.fileTables (k + m) = s.fileTables k ++ tabs := by
  have self := filled.fileTable_self
  rw [index] at self
  have early : ∀ c < tableOf k, t.fileTable c = s.fileTable c := fun c less =>
    filled.fileTable_ne (by rw [index]; omega)
  have early' : (List.range (tableOf k)).map (fun c => (t.fileTable c).toNat) =
      (List.range (tableOf k)).map fun c => (s.fileTable c).toNat := by
    apply List.map_congr_left
    intro c mem
    rw [early c (List.mem_range.1 mem)]
  have after : t.fileTables (k + m) =
      ((List.range (tableOf k)).map fun c => (s.fileTable c).toNat) ++ [table] := by
    unfold fileTables tabled
    rw [tables_add large some fits, List.range_succ, List.map_append, List.map_singleton]
    unfold fileTable at early' self
    rw [early', self]
    rfl
  rcases table_origin sound large within index filled with
    ⟨-, before, new⟩ | ⟨-, before, new, same⟩
  · rw [after, new]
    unfold fileTables tabled
    rw [before]
    rfl
  · rw [after, new, List.append_nil]
    unfold fileTables tabled
    rw [before, List.range_succ, List.map_append, List.map_singleton]
    unfold fileTable at same
    rw [same]
    rfl

include count

theorem table_blocks : t.fileBlocks (k + m) = s.fileBlocks k ++ data := by
  subst count
  apply mapped_append
  · intro j less
    exact table_blockAt sound large within index filled less
  · intro i less
    obtain ⟨same, slot⟩ := tableOf_add (i := i) large (by omega)
    have self := filled.fileTable_self
    rw [index] at self
    unfold fileTable at self
    unfold blockAt
    rw [if_neg (by omega), same, slot, self]
    exact filled.entries i less

/-- **One table grows the file**, and leaves it sound. -/
theorem grown_table : Grown s t k m data tabs ∧ Sound t (k + m) limit := by
  have tablesEq := table_tables sound large some fits within index filled
  have blocksEq := table_blocks sound large some fits within index count filled
  have self := filled.fileTable_self
  rw [index] at self
  have counted := tables_add large some fits
  have mem : table ∈ t.fileTables (k + m) := mem_tabled.2 ⟨tableOf k, by omega, self⟩
  constructor
  · exact
      { took := filled.took
        count := count
        blocks := blocksEq
        tables := tablesEq
        zero := filled.zero
        kept := fun x notData notTable => filled.kept x notData fun h => notTable (h ▸ mem)
        inode := fun w apart => filled.inode (by unfold indirWord; omega)
        md := filled.md }
  · refine
      { system := fun b small => filled.took.keeps (sound.system b small)
        nodup := ?_
        known := ?_
        rest := ?_
        slots := ?_ }
    · rw [tablesEq, List.nodup_append]
      refine ⟨sound.nodup, (List.nodup_append.1 filled.took.nodup).2.1, ?_⟩
      rintro b old c new rfl
      exact filled.took.not_marked (sound.known b old).2.2 (List.mem_append_right _ new)
    · intro b inside
      rw [tablesEq, List.mem_append] at inside
      rw [filled.took.same.totalblocks]
      rcases inside with old | new
      · obtain ⟨positive, bound, marked⟩ := sound.known b old
        exact ⟨positive, bound, filled.took.keeps marked⟩
      · have isNew := List.mem_append_right data new
        refine ⟨?_, (filled.took.fresh b isNew).1, (filled.took.marked b).2 (.inr isNew)⟩
        rcases Nat.eq_zero_or_pos b with rfl | positive
        · exact absurd isNew (filled.took.not_marked (sound.system 0 (by decide)))
        · exact positive
    · intro c low high
      rw [filled.fileTable_ne (by rw [index]; omega)]
      apply sound.rest c _ high
      rcases table_origin sound large within index filled with ⟨-, before, -⟩ | ⟨-, before, -⟩ <;>
        omega
    · intro c low j less past
      have place := place_eq large
      obtain rfl : c = tableOf k := by omega
      rw [self]
      apply filled.past j _ less
      omega

end GrowTable

end Volume

end Buenos.Fs
