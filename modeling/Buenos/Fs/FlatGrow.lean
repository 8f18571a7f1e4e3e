/-
# Fs.FlatGrow -- a FlatFS file grows

`flatfs_alloc_blocks` in its three parts.  Each part either grows the file in the buffers
(`Grown`) or runs out of blocks, and then it has written nothing that was marked except
tables of the file (`Refused`).  `flatfsAllocBlocks_cases` puts them together: a file of
`k` blocks gets `n` more, with the tables that `k + n` blocks need and `k` did not, or the
bitmap has fewer free blocks than that.
-/
import Buenos.Fs.FlatAlloc

namespace Buenos.Fs

open Buenos.Lib Buenos.Theory

set_option autoImplicit false

namespace Volume

variable {s t u : Flat}

/-! ## Growing in parts -/

theorem Grown.refl (s : Flat) (k : Nat) : Grown s s k 0 [] [] where
  took := .refl s
  count := rfl
  blocks := (List.append_nil _).symm
  tables := (List.append_nil _).symm
  zero := by simp
  kept := fun _ _ _ => rfl
  inode := fun _ _ => rfl
  md := rfl

/-- A later step that leaves the map and the disk alone. -/
theorem Grown.then {k n : Nat} {data tabs : List Nat} (grown : Grown s t k n data tabs)
    (took : Took s u (data ++ tabs)) (disk : u.blocks = t.blocks)
    (inode : u.buffer .inode = t.buffer .inode) (di : u.buffer .di = t.buffer .di)
    (md : u.buffer .md = t.buffer .md) : Grown s u k n data tabs where
  took := took
  count := grown.count
  blocks := by
    rw [← grown.blocks]
    unfold fileBlocks
    rw [disk, inode, di]
  tables := by
    rw [← grown.tables]
    unfold fileTables
    rw [inode, di]
  zero := by rw [disk]; exact grown.zero
  kept := by
    unfold fileTables
    rw [disk, inode, di]
    exact grown.kept
  inode := by rw [inode]; exact grown.inode
  md := md.trans grown.md

/-- What was marked is kept by growing, but for the tables that the file had. -/
theorem Grown.kept_marked {k n : Nat} {data tabs : List Nat} (grown : Grown s t k n data tabs)
    {x : Nat} (marked : s.marked x = true) (apart : x ∉ s.fileTables k) :
    t.blocks x = s.blocks x := by
  have notNew := grown.took.not_marked marked
  apply grown.kept x (fun mem => notNew (List.mem_append_left _ mem))
  rw [grown.tables, List.mem_append]
  exact not_or.2 ⟨apart, fun mem => notNew (List.mem_append_right _ mem)⟩

/-- Running full after a part that grew the file. -/
theorem Refused.grown {k n : Nat} {data tabs : List Nat} (grown : Grown s t k n data tabs)
    (refused : Refused t u (t.fileTables (k + n))) : Refused s u (s.fileTables k) where
  same := grown.took.same.trans refused.same
  kept := fun x marked apart => by
    rw [refused.kept x (grown.took.keeps marked), grown.kept_marked marked apart]
    rw [grown.tables, List.mem_append]
    exact not_or.2 ⟨apart, fun mem =>
      grown.took.not_marked marked (List.mem_append_right _ mem)⟩
  refused := by
    rw [← grown.took.refused]
    exact refused.refused

/-- The room that growing took. -/
theorem room_of_grown {k n : Nat} {data tabs : List Nat} (grown : Grown s t k n data tabs) :
    s.room = t.room + n + (tables (k + n) - tables k) ∧ tables (k + n) = tables k + tabs.length := by
  have count := congrArg List.length grown.tables
  simp only [fileTables, tabled_length, List.length_append] at count
  have took := grown.took.room
  rw [List.length_append, grown.count] at took
  omega

/-! ## The double-indirect blocks -/

/-- The loop over the double-indirect block, for a file that ends in the table of round `i`. -/
theorem allocDouble_cases (rounds : Nat) :
    ∀ (i k n : Nat) (s : Flat), s.Ready → Sound s k 129 → 7 ≤ k → n ≤ rounds →
      tableOf k = i + 1 → k + min n (s.room + 1) ≤ FLATFS_MAX_BLOCKS →
      (∃ t data tabs, allocDouble rounds i n (slotOf k) s = .returned (true, t) ∧
          Grown s t k n data tabs ∧ Sound t (k + n) 129) ∨
        ∃ t, allocDouble rounds i n (slotOf k) s = .returned (false, t) ∧
          s.room < n + (tables (k + n) - tables k) ∧ Refused s t (s.fileTables k) := by
  induction rounds with
  | zero =>
      intro i k n s _ sound _ few _ _
      obtain rfl : n = 0 := Nat.le_zero.1 few
      exact .inl ⟨s, [], [], rfl, .refl s k, sound⟩
  | succ rounds ih =>
      intro i k n s ready sound large few index bound
      rw [allocDouble]
      by_cases none : n = 0
      · subst none
        rw [if_pos rfl]
        exact .inl ⟨s, [], [], rfl, .refl s k, sound⟩
      · rw [if_neg none]
        have slot := slotOf_lt k
        have place := place_eq large
        have within : tableOf k < 129 := by
          unfold FLATFS_MAX_BLOCKS FLATFS_BLOCKS_DIRECT FLATFS_BLOCKS_SINDIR
            FLATFS_BLOCKS_DINDIR at bound
          omega
        have inside : indWord (some i) < 128 := by
          simp only [indWord, Option.getD_some]
          omega
        have place' : tableIndex (some i) = tableOf k := by simp [tableIndex, index]
        have named : s.pointer (some i) = s.fileTable (tableOf k) := by
          rw [pointer_eq, place']
          rfl
        have known : s.pointer (some i) ≠ 0 → (s.pointer (some i)).toNat < s.totalblocks ∧
            s.marked (s.pointer (some i)).toNat = true := by
          intro there
          have early : tableOf k < tables k := by
            by_contra late
            exact there (named.trans (sound.rest _ (Nat.not_lt.1 late) within))
          rw [named]
          exact (sound.known _ (mem_tabled.2 ⟨_, early, rfl⟩)).2
        rw [show FLATFS_BLOCKS_SINDIR = 128 from rfl]
        rcases flatfsAllocIndir_cases ready (some i) (min n (128 - slotOf k)) (slotOf k)
          inside known with ⟨t, table, data, tabs, ran, count, filled⟩ | ⟨t, ran, full, refused⟩
        · obtain ⟨grown, sound'⟩ := grown_table sound large (by omega) (by omega) within place' count
            filled
          rw [Prog.bind_of_returned ran, if_pos rfl]
          by_cases last : n ≤ 128 - slotOf k
          · rw [Nat.min_eq_left last] at grown sound'
            rw [Nat.min_eq_left last, Nat.sub_self]
            have ended : allocDouble rounds (i + 1) 0 0 t = .returned (true, t) := by
              cases rounds <;> rfl
            exact .inl ⟨t, data, tabs, ended, grown, sound'⟩
          · have more : 128 - slotOf k ≤ n := by omega
            rw [Nat.min_eq_right more] at grown sound'
            rw [Nat.min_eq_right more]
            have next : slotOf (k + (128 - slotOf k)) = 0 := by
              unfold slotOf
              omega
            have index' : tableOf (k + (128 - slotOf k)) = i + 1 + 1 := by
              unfold tableOf slotOf at *
              omega
            have whole : k + (128 - slotOf k) + (n - (128 - slotOf k)) = k + n := by omega
            have sum : 128 - slotOf k + (n - (128 - slotOf k)) = n := by omega
            have room := room_of_grown grown
            have mono := tables_mono (k := k + (128 - slotOf k)) (m := k + n) (by omega)
            have result := ih (i + 1) (k + (128 - slotOf k)) (n - (128 - slotOf k)) t
              (ready.same grown.took.same) sound' (by omega) (by omega) index' (by omega)
            rw [next, whole] at result
            rcases result with ⟨u, data', tabs', ran', grown', sound''⟩ | ⟨u, ran', full, refused⟩
            · have all := Grown.trans sound grown grown'
              rw [sum] at all
              exact .inl ⟨u, _, _, ran', all, sound''⟩
            · exact .inr ⟨u, ran', by omega, refused.grown grown⟩
        · right
          refine ⟨t, ?_, ?_, refused.weaken (by simp)⟩
          · rw [Prog.bind_of_returned ran]
            rfl
          · have mono := tables_mono (k := k + min n (128 - slotOf k)) (m := k + n) (by omega)
            have counted := tables_add (k := k) (m := min n (128 - slotOf k)) large (by omega)
              (by omega)
            by_cases zero : s.pointer (some i) = 0
            · rw [if_pos zero] at full
              have new : tables k = tableOf k := by
                by_contra other
                have early : tableOf k < tables k := by
                  unfold tables tableOf at other ⊢
                  omega
                have := (sound.known _ (mem_tabled.2 ⟨_, early, rfl⟩)).1
                unfold fileTable at named
                rw [← named, zero] at this
                simp at this
              omega
            · rw [if_neg zero] at full
              omega

/-! ## The direct blocks -/

/-- A file of `k + m` blocks, all of them direct. -/
theorem grown_direct {k m limit : Nat} {new : List Nat} (sound : Sound s k limit)
    (few : k + m ≤ 7) (count : new.length = m) (filled : Filled s t .inode (directWord k) new)
    {v : Flat} (cleared : v = t.setBuffer .inode fun i =>
      if directWord (m + k) ≤ i ∧ i < directWord 7 then 0 else t.buffer .inode i) :
    Grown s v k m new [] ∧ Sound v (k + m) limit ∧
      ∀ i, k + m ≤ i → i < 7 → v.buffer .inode (directWord i) = 0 := by
  have word : ∀ w, w < directWord (m + k) ∨ directWord 7 ≤ w →
      v.buffer .inode w = t.buffer .inode w := by
    intro w apart
    rw [cleared, setBuffer_buffer, Function.update_self, if_neg (by omega)]
  have past : ∀ w, directWord (m + k) ≤ w → w < directWord 7 → v.buffer .inode w = 0 := by
    intro w low high
    rw [cleared, setBuffer_buffer, Function.update_self, if_pos ⟨low, high⟩]
  have others : ∀ c, c ≠ FlatBuffer.inode → v.buffer c = t.buffer c := by
    intro c apart
    rw [cleared, setBuffer_buffer, Function.update_of_ne apart]
  have same : Volume.Same t v := by
    rw [cleared]
    exact .setBuffer _ _
  have disk : v.blocks = t.blocks := by rw [cleared, setBuffer_blocks]
  have refused : v.refused = t.refused := by rw [cleared, setBuffer_refused]
  have old : ∀ w, w < directWord k ∨ directWord 7 ≤ w →
      v.buffer .inode w = s.buffer .inode w := by
    intro w apart
    unfold directWord at *
    rw [word w (by omega), filled.words w (by omega)]
  have table : ∀ c, v.fileTable c = s.fileTable c := by
    intro c
    unfold fileTable tableAt
    rw [old indirWord (.inr (by decide)), others .di (by decide),
      filled.others .di (by decide) (by decide)]
  have took : Took s v new := filled.took.then same (others .bat (by decide)) refused
  refine ⟨?_, ?_, ?_⟩
  · refine
      { took := by
          rw [List.append_nil]
          exact took
        count := count
        blocks := ?_
        tables := by simp [fileTables, tabled, tables_of_le few, tables_of_le (by omega : k ≤ 7)]
        zero := by rw [disk]; exact filled.zero
        kept := fun x notData _ => by rw [disk]; exact filled.kept x notData
        inode := fun w apart => old w (by unfold directWord; omega)
        md := (others .md (by decide)).trans (filled.others .md (by decide) (by decide)) }
    subst count
    apply mapped_append
    · intro j less
      unfold blockAt
      rw [if_pos (by omega), if_pos (by omega), old _ (.inl (by unfold directWord; omega))]
    · intro i less
      have stored := filled.stored i less
      unfold blockAt
      rw [if_pos (by omega), word _ (.inl (by unfold directWord; omega)),
        show directWord (k + i) = directWord k + i by unfold directWord; omega]
      exact stored
  · have none := tables_of_le few
    refine
      { system := fun b small => took.keeps (sound.system b small)
        nodup := by simp [fileTables, tabled, none]
        known := fun b mem => by simp [fileTables, tabled, none] at mem
        rest := fun c _ less => ?_
        slots := fun c less => by omega }
    rw [table]
    exact sound.rest c (by rw [tables_of_le (by omega)]; exact Nat.zero_le c) less
  · intro i low high
    exact past _ (by unfold directWord; omega) (by unfold directWord; omega)

/-! ## The whole request -/

/-- The tables that a file of `k` blocks can have. -/
def limitOf (k : Nat) : Nat := if k ≤ 135 then 1 else 129

/-- The block that the inode buffer names as the double-indirect one. -/
def double (s : Flat) : Nat := (s.buffer .inode dblIndirWord).toNat

/-- The double-indirect block is the file's own, and is zero while it is not needed. -/
structure DoubleReady (s : Flat) (k : Nat) : Prop where
  above : 3 ≤ s.double
  inside : s.double < s.totalblocks
  marked : s.marked s.double = true
  apart : s.double ∉ s.fileTables k
  content : s.blocks s.double = if k ≤ 135 then zeroblock else s.buffer .di

/-- The direct blocks past the end of the file are not named. -/
def Tail (s : Flat) (k : Nat) : Prop :=
  ∀ i, k ≤ i → i < 7 → s.buffer .inode (directWord i) = 0

theorem tail_of_large {k : Nat} (large : 7 ≤ k) : Tail s k := fun i low high => by omega

/-- The file of `k` blocks in the buffers has got `n` more, and what is not in the inode is
on the disk. -/
structure Extended (s t : Flat) (k n : Nat) (data tabs : List Nat) : Prop where
  took : Took s t (data ++ tabs)
  count : data.length = n
  blocks : t.fileBlocks (k + n) = s.fileBlocks k ++ data
  tables : t.fileTables (k + n) = s.fileTables k ++ tabs
  zero : ∀ x ∈ data, t.blocks x = zeroblock
  kept : ∀ x, x ∉ data → x ∉ t.fileTables (k + n) → x ≠ 1 → (135 < k + n → x ≠ s.double) →
    t.blocks x = s.blocks x
  inode : ∀ w, w = 0 ∨ 8 < w → t.buffer .inode w = s.buffer .inode w
  md : t.buffer .md = s.buffer .md
  bitmap : t.blocks 1 = t.buffer .bat
  double : 135 < k + n → t.blocks t.double = t.buffer .di
  sound : Sound t (k + n) (limitOf (k + n))
  tail : Tail t (k + n)

theorem double_of_grown {k n : Nat} {data tabs : List Nat} (grown : Grown s t k n data tabs) :
    t.double = s.double := by
  unfold double
  rw [grown.inode dblIndirWord (.inr (by decide))]

/-- Growing below the double-indirect range leaves that block ready. -/
theorem DoubleReady.grown {k n : Nat} {data tabs : List Nat} (ready : DoubleReady s k)
    (grown : Grown s t k n data tabs) (low : k + n ≤ 135) : DoubleReady t (k + n) where
  above := by rw [double_of_grown grown]; exact ready.above
  inside := by
    rw [double_of_grown grown, grown.took.same.totalblocks]
    exact ready.inside
  marked := by
    rw [double_of_grown grown]
    exact grown.took.keeps ready.marked
  apart := by
    rw [double_of_grown grown, grown.tables, List.mem_append]
    exact not_or.2 ⟨ready.apart, fun mem =>
      grown.took.not_marked ready.marked (List.mem_append_right _ mem)⟩
  content := by
    rw [double_of_grown grown, grown.kept_marked ready.marked ready.apart, ready.content,
      if_pos (by omega), if_pos low]

/-- A write outside the tables leaves the map. -/
theorem fileBlocks_didWrite {k x : Nat} (content : Block) (apart : x ∉ s.fileTables k) :
    (s.didWrite x content).fileBlocks k = s.fileBlocks k := by
  apply mapped_congr
  apply blockAt_congr
  · exact fun _ _ _ => rfl
  · exact fun _ _ => rfl
  · intro b mem
    rw [didWrite_blocks, Function.update_of_ne]
    rintro rfl
    exact apart mem

theorem Sound.didWrite {k limit x : Nat} (sound : Sound s k limit) (content : Block)
    (apart : x ∉ s.fileTables k) : Sound (s.didWrite x content) k limit where
  system := sound.system
  nodup := sound.nodup
  known := sound.known
  rest := sound.rest
  slots := fun c less i small past => by
    have ne : (s.fileTable c).toNat ≠ x := fun h => apart (h ▸ mem_tabled.2 ⟨c, less, rfl⟩)
    change Function.update s.blocks x content (s.fileTable c).toNat i = 0
    rw [Function.update_of_ne ne]
    exact sound.slots c less i small past

/-- Reading in the double-indirect block makes all tables known. -/
theorem Sound.loaded {k : Nat} (sound : Sound s k (limitOf k)) (double : DoubleReady s k) :
    Sound (s.didRead s.double .di) k 129 ∧
      (s.didRead s.double .di).fileTables k = s.fileTables k ∧
      (s.didRead s.double .di).fileBlocks k = s.fileBlocks k := by
  by_cases low : k ≤ 135
  · have content := double.content
    rw [if_pos low] at content
    have few : tables k ≤ 1 := by
      unfold tables
      omega
    have table : ∀ c < tables k, (s.didRead s.double .di).fileTable c = s.fileTable c := by
      intro c less
      obtain rfl : c = 0 := by omega
      simp [fileTable, tableAt, didRead_buffer]
    have tablesEq : (s.didRead s.double .di).fileTables k = s.fileTables k := tabled_congr table
    refine ⟨?_, tablesEq, ?_⟩
    · refine
        { system := sound.system
          nodup := by rw [tablesEq]; exact sound.nodup
          known := by rw [tablesEq]; exact sound.known
          rest := fun c late _ => ?_
          slots := fun c less => by rw [table c less]; exact sound.slots c less }
      by_cases first : c = 0
      · subst first
        have := sound.rest 0 late (by simp [limitOf, low])
        simpa [fileTable, tableAt, didRead_buffer] using this
      · simp [fileTable, tableAt, first, didRead_buffer, content, zeroblock]
    · apply mapped_congr
      apply blockAt_congr
      · exact fun _ _ _ => by simp [didRead_buffer]
      · exact table
      · exact fun _ _ => rfl
  · have same : (s.didRead s.double .di).buffer = s.buffer := by
      have content := double.content
      rw [if_neg low] at content
      rw [didRead_buffer, content, Function.update_eq_self]
    have limit : limitOf k = 129 := if_neg low
    rw [limit] at sound
    refine ⟨⟨?_, ?_, ?_, ?_, ?_⟩, ?_, ?_⟩
    · unfold marked
      rw [same]
      exact sound.system
    · unfold fileTables
      rw [same]
      exact sound.nodup
    · unfold fileTables marked
      rw [same]
      exact sound.known
    · unfold fileTable
      rw [same]
      exact sound.rest
    · unfold fileTable
      rw [same]
      exact sound.slots
    · unfold fileTables
      rw [same]
    · unfold fileBlocks
      rw [same]
      rfl

/-! ## The parts of the request -/

/-- The tables of the file are not system blocks. -/
def Above (s : Flat) (k : Nat) : Prop := ∀ b ∈ s.fileTables k, 3 ≤ b

theorem fresh_above {k limit x : Nat} {new : List Nat} (sound : Sound s k limit)
    (took : Took s t new) (mem : x ∈ new) : 3 ≤ x := by
  by_contra low
  exact took.not_marked (sound.system x (by omega)) mem

theorem above_of_grown {k n limit : Nat} {data tabs : List Nat} (sound : Sound s k limit)
    (above : Above s k) (grown : Grown s t k n data tabs) : Above t (k + n) := by
  intro b mem
  rw [grown.tables, List.mem_append] at mem
  rcases mem with old | new
  · exact above b old
  · exact fresh_above sound grown.took (List.mem_append_right _ new)

/-- What follows a part of the request in which the file has grown. -/
theorem Extended.after {k m n limit : Nat} {data data' tabs tabs' : List Nat}
    (sound : Sound s k limit) (marked : 135 < k + (m + n) → s.marked s.double = true)
    (grown : Grown s t k m data tabs) (extended : Extended t u (k + m) n data' tabs') :
    Extended s u k (m + n) (data ++ data') (tabs ++ tabs') := by
  have sum : k + m + n = k + (m + n) := by omega
  have double := double_of_grown grown
  have tablesEq : u.fileTables (k + (m + n)) = s.fileTables k ++ (tabs ++ tabs') := by
    rw [← sum, extended.tables, grown.tables, List.append_assoc]
  have kept : ∀ x, x ∉ data' → x ∉ u.fileTables (k + (m + n)) → x ≠ 1 →
      (135 < k + (m + n) → x ≠ s.double) → u.blocks x = t.blocks x := by
    intro x notData notTable notBitmap notDouble
    rw [← sum, ← double] at notDouble
    exact extended.kept x notData (sum ▸ notTable) notBitmap notDouble
  exact
    { took := by
        refine (grown.took.append extended.took).perm ?_
        simp only [List.append_assoc]
        apply List.Perm.append_left
        rw [← List.append_assoc, ← List.append_assoc]
        exact List.Perm.append_right _ List.perm_append_comm
      count := by rw [List.length_append, grown.count, extended.count]
      blocks := by rw [← sum, extended.blocks, grown.blocks, List.append_assoc]
      tables := tablesEq
      zero := by
        intro x mem
        by_cases later : x ∈ data'
        · exact extended.zero x later
        · have early : x ∈ data := by simpa [later] using mem
          have isNew := List.mem_append_left tabs early
          have unmarked := (grown.took.fresh x isNew).2
          rw [kept x later, grown.zero x early]
          · rw [tablesEq, List.mem_append, List.mem_append]
            rintro (old | tab | tab)
            · rw [(sound.known x old).2.2] at unmarked
              cases unmarked
            · exact (List.nodup_append.1 grown.took.nodup).2.2 x early x tab rfl
            · exact extended.took.not_marked ((grown.took.marked x).2 (.inr isNew))
                (List.mem_append_right _ tab)
          · have := fresh_above sound grown.took isNew
            omega
          · rintro large rfl
            rw [marked large] at unmarked
            cases unmarked
      kept := by
        intro x notData notTable notBitmap notDouble
        simp only [List.mem_append, not_or] at notData
        rw [kept x notData.2 notTable notBitmap notDouble]
        apply grown.kept x notData.1
        intro table
        apply notTable
        rw [← sum, extended.tables]
        exact List.mem_append_left _ table
      inode := fun w apart => (extended.inode w apart).trans (grown.inode w apart)
      md := extended.md.trans grown.md
      bitmap := extended.bitmap
      double := by rw [← sum]; exact extended.double
      sound := by rw [← sum]; exact extended.sound
      tail := by rw [← sum]; exact extended.tail }

/-- The room that the earlier part took counts towards what is missing. -/
theorem short_after {k m n : Nat} {data tabs : List Nat} (grown : Grown s t k m data tabs)
    (short : t.room < n + (Fs.tables (k + m + n) - Fs.tables (k + m))) :
    s.room < m + n + (Fs.tables (k + (m + n)) - Fs.tables k) := by
  have room := room_of_grown grown
  have mono := tables_mono (k := k + m) (m := k + m + n) (by omega)
  rw [← Nat.add_assoc k m n]
  omega

/-- The last steps: the double-indirect block has been stored, if there is one, and the
bitmap is stored now. -/
theorem storeBat_extended (ready : s.Ready) (room : 3 ≤ s.totalblocks) {k n : Nat}
    {data tabs : List Nat} (grown : Grown s t k n data tabs)
    (sound : Sound t (k + n) (limitOf (k + n))) (above : Above t (k + n)) (tail : Tail t (k + n))
    (fresh : 1 ∉ data) {v : Flat} (same : Volume.Same t v) (buffers : v.buffer = t.buffer)
    (refused : v.refused = t.refused)
    (kept : ∀ x, (135 < k + n → x ≠ s.double) → v.blocks x = t.blocks x)
    (double : 135 < k + n → s.double ≠ 1 ∧ s.double ∉ data ∧ s.double ∉ t.fileTables (k + n) ∧
      v.blocks s.double = t.buffer .di) :
    ∃ u, storeBat v = .returned (true, u) ∧ Extended s u k n data tabs := by
  have apart : 1 ∉ v.fileTables (k + n) := by
    unfold fileTables
    rw [buffers]
    exact fun mem => absurd (above 1 mem) (by decide)
  have tablesEq : v.fileTables (k + n) = t.fileTables (k + n) := by
    unfold fileTables
    rw [buffers]
  have onTable : ∀ x ∈ t.fileTables (k + n), v.blocks x = t.blocks x := fun x mem =>
    kept x fun large ne => (double large).2.2.1 (ne ▸ mem)
  have blocksEq : v.fileBlocks (k + n) = t.fileBlocks (k + n) := by
    unfold fileBlocks
    rw [buffers]
    exact mapped_congr (blockAt_congr (fun _ _ _ => rfl) (fun _ _ => rfl) onTable)
  have took : Took s v (data ++ tabs) := grown.took.then same (by rw [buffers]) refused
  have sound' : Sound v (k + n) (limitOf (k + n)) := by
    refine ⟨?_, ?_, ?_, ?_, ?_⟩
    · unfold marked
      rw [buffers]
      exact sound.system
    · rw [tablesEq]; exact sound.nodup
    · rw [tablesEq, same.totalblocks]
      unfold marked
      rw [buffers]
      exact sound.known
    · unfold fileTable
      rw [buffers]
      exact sound.rest
    · intro c less
      unfold fileTable
      rw [buffers]
      have mem : (t.fileTable c).toNat ∈ t.fileTables (k + n) := mem_tabled.2 ⟨c, less, rfl⟩
      have content := onTable _ mem
      unfold fileTable at content
      rw [content]
      exact sound.slots c less
  refine ⟨v.didWrite 1 (v.buffer .bat), ?_, ?_⟩
  · exact Volume.writeBuffer_ready (ready.same took.same) _ _
      (by rw [took.same.totalblocks]; exact Nat.lt_of_lt_of_le (by decide) room)
  · exact
      { took := took.then ⟨rfl, rfl, rfl, rfl⟩ rfl rfl
        count := grown.count
        blocks := by rw [fileBlocks_didWrite _ apart, blocksEq, grown.blocks]
        tables := tablesEq.trans grown.tables
        zero := fun x mem => by
          rw [didWrite_blocks, Function.update_of_ne (fun h : x = 1 => fresh (h ▸ mem)),
            kept x fun large ne => (double large).2.1 (ne ▸ mem)]
          exact grown.zero x mem
        kept := fun x notData notTable notBitmap notDouble => by
          rw [didWrite_blocks, Function.update_of_ne notBitmap, kept x notDouble]
          exact grown.kept x notData (tablesEq ▸ notTable)
        inode := fun w apart => by
          rw [didWrite_buffer, buffers]
          exact grown.inode w apart
        md := by
          rw [didWrite_buffer, buffers]
          exact grown.md
        bitmap := by rw [didWrite_blocks, Function.update_self]; rfl
        double := fun large => by
          obtain ⟨ne, -, -, content⟩ := double large
          have named : (v.didWrite 1 (v.buffer .bat)).double = s.double := by
            rw [← double_of_grown grown]
            unfold Volume.double
            rw [didWrite_buffer, buffers]
          rw [named, didWrite_blocks, didWrite_buffer, buffers]
          exact (Function.update_of_ne ne _ _).trans content
        sound := sound'.didWrite _ apart
        tail := fun i low high => by
          rw [didWrite_buffer, buffers]
          exact tail i low high }

/-- The double-indirect part: nothing is left to do, or the file has filled its
single-indirect block. -/
theorem allocBlocksDouble_cases (ready : s.Ready) (room : 3 ≤ s.totalblocks) {k n : Nat}
    (offset : Nat)
    (sound : Sound s k (limitOf k)) (above : Above s k) (tail : Tail s k)
    (done : n = 0 → k ≤ 135)
    (more : 0 < n → 135 ≤ k ∧ offset = k ∧ k + min n (s.room + 1) ≤ FLATFS_MAX_BLOCKS ∧
      DoubleReady s k) :
    (∃ t data tabs, allocBlocksDouble n offset s = .returned (true, t) ∧
        Extended s t k n data tabs) ∨
      ∃ t, allocBlocksDouble n offset s = .returned (false, t) ∧
        s.room < n + (tables (k + n) - tables k) ∧ Refused s t (s.fileTables k) := by
  rcases Nat.eq_zero_or_pos n with rfl | some
  · left
    have low := done rfl
    obtain ⟨t, ran, extended⟩ := storeBat_extended ready room (.refl s k) sound above tail
      (by simp) (.refl s) rfl rfl (fun _ _ => rfl) (fun large => by omega)
    refine ⟨t, [], [], ?_, extended⟩
    rw [allocBlocksDouble, if_neg (by decide)]
    exact ran
  · obtain ⟨large, rfl, bound, double⟩ := more some
    obtain ⟨loaded, tablesEq, blocksEq⟩ := sound.loaded double
    have same : Volume.Same s (s.didRead s.double .di) := .didRead _ _
    have read := Volume.readBlock_ready ready FlatBuffer.di
      (show (s.buffer .inode dblIndirWord).toNat < s.totalblocks from double.inside)
    have index : tableOf offset = (offset - 135) / 128 + 1 := by
      unfold tableOf
      omega
    have slot : (offset - 135) % 128 = slotOf offset := by
      unfold slotOf
      omega
    have step : allocBlocksDouble n offset s =
        (do
          let done ← allocDouble n ((offset - 135) / 128) n (slotOf offset)
          if done then do
            let dbl ← Prog.gets fun s => s.buffer .inode dblIndirWord
            let written ← writeBuffer dbl .di
            if written then storeBat else pure false
          else pure false : Prog Flat Bool) (s.didRead s.double .di) := by
      rw [allocBlocksDouble, if_pos some, Prog.bind_gets_apply, Prog.bind_of_returned read,
        if_pos rfl, ← slot]
      rfl
    have took : Took s (s.didRead s.double .di) [] := (Took.refl s).then same rfl rfl
    rw [step]
    rcases allocDouble_cases n ((offset - 135) / 128) offset n _ (ready.same same) loaded
      (by omega) (Nat.le_refl n) index bound with
      ⟨t, data, tabs, ran, grown, sound'⟩ | ⟨t, ran, full, refused⟩
    · left
      have grown' : Grown s t offset n data tabs :=
        { took := by simpa using took.append grown.took
          count := grown.count
          blocks := by rw [grown.blocks, blocksEq]
          tables := by rw [grown.tables, tablesEq]
          zero := grown.zero
          kept := grown.kept
          inode := fun w apart => grown.inode w apart
          md := grown.md }
      have named := double_of_grown grown'
      have limit : limitOf (offset + n) = 129 := if_neg (by omega)
      rw [← limit] at sound'
      have notNew := grown'.took.not_marked double.marked
      have notTable : s.double ∉ t.fileTables (offset + n) := by
        rw [grown'.tables, List.mem_append]
        exact not_or.2 ⟨double.apart, fun mem => notNew (List.mem_append_right _ mem)⟩
      have above' := double.above
      have written := Volume.writeBuffer_ready (ready.same grown'.took.same)
        (t.buffer .inode dblIndirWord) .di (by
          rw [grown'.took.same.totalblocks]
          exact Nat.lt_of_le_of_lt (Nat.le_of_eq named) double.inside)
      change writeBuffer _ _ t = .returned (true, t.didWrite t.double (t.buffer .di)) at written
      rw [named] at written
      obtain ⟨u, stored, extended⟩ := storeBat_extended ready room grown' sound'
        (above_of_grown sound above grown') (tail_of_large (by omega))
        (fun mem => absurd (fresh_above sound grown'.took (List.mem_append_left _ mem)) (by decide))
        (v := t.didWrite s.double (t.buffer .di)) (.didWrite _ _) rfl rfl
        (fun x apart => by
          rw [didWrite_blocks, Function.update_of_ne (apart (by omega))])
        (fun _ => ⟨by omega, fun mem => notNew (List.mem_append_left _ mem), notTable, by
          rw [didWrite_blocks, Function.update_self]⟩)
      refine ⟨u, data, tabs, ?_, extended⟩
      rw [Prog.bind_of_returned ran, if_pos rfl, Prog.bind_gets_apply,
        Prog.bind_of_returned written, if_pos rfl]
      exact stored
    · right
      refine ⟨t, ?_, full, ?_⟩
      · rw [Prog.bind_of_returned ran]
        rfl
      · rw [tablesEq] at refused
        exact .after took (fun _ _ _ => rfl) refused

/-- The single-indirect part, and what follows. -/
theorem allocBlocksSingle_cases (ready : s.Ready) (room : 3 ≤ s.totalblocks) {k n : Nat}
    (offset : Nat)
    (sound : Sound s k (limitOf k)) (above : Above s k) (tail : Tail s k)
    (done : n = 0 → k ≤ 135) (more : 0 < n → 7 ≤ k ∧ offset = k)
    (bound : k + min n (s.room + 1) ≤ FLATFS_MAX_BLOCKS) (double : 135 < k + n → DoubleReady s k) :
    (∃ t data tabs, allocBlocksSingle n offset s = .returned (true, t) ∧
        Extended s t k n data tabs) ∨
      ∃ t, allocBlocksSingle n offset s = .returned (false, t) ∧
        s.room < n + (tables (k + n) - tables k) ∧ Refused s t (s.fileTables k) := by
  unfold allocBlocksSingle
  by_cases single : 0 < n ∧ offset < FLATFS_BLOCKS_DIRECT + FLATFS_BLOCKS_SINDIR
  · rw [if_pos single]
    obtain ⟨large, rfl⟩ := more single.1
    have low : offset < 135 := single.2
    have slot : offset - 7 = slotOf offset := by
      unfold slotOf
      omega
    have index : tableIndex none = tableOf offset := by
      unfold tableOf
      exact (Nat.div_eq_of_lt (by omega)).symm
    have limit : limitOf offset = 1 := if_pos (by omega)
    rw [limit] at sound
    have named : s.pointer none = s.fileTable 0 := by
      rw [pointer_eq]
      rfl
    have known : s.pointer none ≠ 0 → (s.pointer none).toNat < s.totalblocks ∧
        s.marked (s.pointer none).toNat = true := by
      intro there
      have early : 0 < tables offset := by
        by_contra late
        exact there (named.trans (sound.rest 0 (by omega) (by decide)))
      rw [named]
      exact (sound.known _ (mem_tabled.2 ⟨0, early, rfl⟩)).2
    have fits : slotOf offset + min n (135 - offset) ≤ 128 := by omega
    rw [show FLATFS_BLOCKS_SINDIR + FLATFS_BLOCKS_DIRECT - offset = 135 - offset from rfl,
      show offset - FLATFS_BLOCKS_DIRECT = offset - 7 from rfl, slot]
    rcases flatfsAllocIndir_cases ready none (min n (135 - offset)) (slotOf offset)
      (by decide) known with ⟨t, table, data, tabs, ran, count, filled⟩ | ⟨t, ran, full, refused⟩
    · obtain ⟨grown, sound'⟩ := grown_table sound large (by omega) fits (by rw [← index]; decide) index count
        filled
      rw [Prog.bind_of_returned ran, if_pos rfl]
      have limit' : limitOf (offset + min n (135 - offset)) = 1 := if_pos (by omega)
      rw [← limit'] at sound'
      have sum : min n (135 - offset) + (n - min n (135 - offset)) = n := by omega
      have whole : offset + min n (135 - offset) + (n - min n (135 - offset)) = offset + n := by
        omega
      have left := room_of_grown grown
      rcases allocBlocksDouble_cases (ready.same grown.took.same)
        (by rw [grown.took.same.totalblocks]; exact room) (n := n - min n (135 - offset))
        (FLATFS_BLOCKS_DIRECT + FLATFS_BLOCKS_SINDIR) sound'
        (above_of_grown sound above grown) (tail_of_large (by omega)) (fun _ => by omega)
        (fun left => ⟨by omega, by unfold FLATFS_BLOCKS_DIRECT FLATFS_BLOCKS_SINDIR; omega,
          by omega, (double (by omega)).grown grown (by omega)⟩) with
        ⟨u, data', tabs', ran', extended⟩ | ⟨u, ran', short, refused⟩
      · left
        have all := Extended.after sound (fun late => (double (by omega)).marked) grown extended
        rw [sum] at all
        exact ⟨u, _, _, ran', all⟩
      · right
        have short' := short_after grown short
        rw [sum] at short'
        exact ⟨u, ran', short', refused.grown grown⟩
    · right
      refine ⟨t, ?_, ?_, refused.weaken (by simp)⟩
      · rw [Prog.bind_of_returned ran]
        rfl
      · have mono := tables_mono (k := offset + min n (135 - offset)) (m := offset + n) (by omega)
        have counted := tables_add (k := offset) (m := min n (135 - offset)) large (by omega) fits
        by_cases zero : s.pointer none = 0
        · rw [if_pos zero] at full
          have new : tables offset = 0 := by
            by_contra other
            have := (sound.known _ (mem_tabled.2 ⟨0, Nat.pos_of_ne_zero other, rfl⟩)).1
            unfold fileTable at named
            rw [← named, zero] at this
            simp at this
          omega
        · rw [if_neg zero] at full
          omega
  · rw [if_neg single]
    apply allocBlocksDouble_cases ready room offset sound above tail done
    intro some
    obtain ⟨large, rfl⟩ := more some
    have high : 135 ≤ offset := Nat.not_lt.1 fun less => single ⟨some, less⟩
    exact ⟨high, rfl, bound, double (by omega)⟩

/-- **A request** of `n` blocks for a file of `k` blocks is met, or there were too few. -/
theorem flatfsAllocBlocks_cases (ready : s.Ready) (room : 3 ≤ s.totalblocks) {k n : Nat}
    (sound : Sound s k (limitOf k)) (above : Above s k) (done : n = 0 → k ≤ 135)
    (bound : k + min n (s.room + 1) ≤ FLATFS_MAX_BLOCKS) (double : 135 < k + n → DoubleReady s k) :
    (∃ t data tabs, flatfsAllocBlocks n k s = .returned (true, t) ∧
        Extended s t k n data tabs) ∨
      ∃ t, flatfsAllocBlocks n k s = .returned (false, t) ∧
        s.room < n + (tables (k + n) - tables k) ∧ Refused s t (s.fileTables k) := by
  unfold flatfsAllocBlocks
  by_cases direct : k < FLATFS_BLOCKS_DIRECT
  · rw [if_pos direct]
    have low : k < 7 := direct
    rw [show FLATFS_BLOCKS_DIRECT = 7 from rfl]
    have few : k + min (7 - k) n ≤ 7 := by omega
    have limit : limitOf k = 1 := if_pos (by omega)
    rcases allocZeroed_cases (b := .inode) (by decide) (min (7 - k) n) (directWord k) s ready with
      ⟨t, new, ran, count, filled⟩ | ⟨t, ran, full, refused⟩
    · obtain ⟨grown, sound', tail⟩ := grown_direct sound few count filled rfl
      rw [Prog.bind_of_returned ran, if_pos rfl]
      simp only [clearWords, Prog.bind_modify_apply]
      have limit' : limitOf (k + min (7 - k) n) = 1 := if_pos (by omega)
      rw [limit, ← limit'] at sound'
      have sum : min (7 - k) n + (n - min (7 - k) n) = n := by omega
      have left := room_of_grown grown
      rcases allocBlocksSingle_cases (ready.same grown.took.same)
        (by rw [grown.took.same.totalblocks]; exact room) (n := n - min (7 - k) n) 7
        sound' (above_of_grown sound above grown) tail (fun _ => by omega)
        (fun left => ⟨by omega, by omega⟩) (by omega)
        (fun large => (double (by omega)).grown grown (by omega)) with
        ⟨u, data', tabs', ran', extended⟩ | ⟨u, ran', short, refused⟩
      · left
        have all := Extended.after sound (fun late => (double (by omega)).marked) grown extended
        rw [sum] at all
        exact ⟨u, _, _, ran', all⟩
      · right
        have short' := short_after grown short
        rw [sum] at short'
        exact ⟨u, ran', short', refused.grown grown⟩
    · right
      refine ⟨t, ?_, by omega, refused.weaken (by simp)⟩
      rw [Prog.bind_of_returned ran]
      rfl
  · rw [if_neg direct]
    have high : 7 ≤ k := Nat.not_lt.1 direct
    exact allocBlocksSingle_cases ready room k sound above (tail_of_large high) done
      (fun _ => ⟨high, rfl⟩) bound double

end Volume

end Buenos.Fs
