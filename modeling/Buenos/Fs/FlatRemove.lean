/-
# Fs.FlatRemove -- removing a FlatFS file

`flatfs_remove` clears the marks of what the inode and the tables name.  The loop over the
double-indirect block counts an unsigned number of blocks down by 128: it ends when that
number is a multiple of 128, and otherwise the number wraps and the loop runs off the end of
the buffer (`removeDouble_ran`).  `flatfsRemove_iff` is that condition for the whole call.

A removal that ends clears the marks of the inode and of the data blocks only, so the tables
stay marked (`FlatCleared`).
-/
import Buenos.Fs.FlatCreate
import Buenos.Fs.DiskLog

namespace Buenos.Fs

open Buenos.Lib Buenos.Theory

set_option autoImplicit false

/-- Block `x` is named by one of `n` words from word `i` on. -/
def Names (content : Block) (i n x : Nat) : Prop :=
  0 < x ∧ ∃ w, i ≤ w ∧ w < i + n ∧ (content w).toNat = x

namespace Volume

variable {s t u : Flat} {freed freed' : Nat → Prop} {asked asked' : List Request}

/-! ## Clearing marks -/

/-- From `s` to `t` the marks of the blocks in `freed` were cleared in the bitmap buffer, and
the requests `asked` were served. -/
structure Released (s t : Flat) (freed : Nat → Prop) (asked : List Request) : Prop where
  same : Volume.Same s t
  disk : t.blocks = s.blocks
  marked : ∀ x, t.marked x = true ↔ s.marked x = true ∧ ¬ freed x
  inode : t.buffer .inode = s.buffer .inode
  md : t.buffer .md = s.buffer .md
  served : t.disk.served = asked.reverse ++ s.disk.served

theorem Released.refl (s : Flat) : Released s s (fun _ => False) [] where
  same := .refl s
  disk := rfl
  marked := by simp
  inode := rfl
  md := rfl
  served := rfl

theorem Released.append (first : Released s t freed asked) (rest : Released t u freed' asked') :
    Released s u (fun x => freed x ∨ freed' x) (asked ++ asked') where
  same := first.same.trans rest.same
  disk := rest.disk.trans first.disk
  marked := fun x => by rw [rest.marked, first.marked, not_or, and_assoc]
  inode := rest.inode.trans first.inode
  md := rest.md.trans first.md
  served := by rw [rest.served, first.served, List.reverse_append, List.append_assoc]

theorem Released.congr (released : Released s t freed asked) (same : ∀ x, freed' x ↔ freed x) :
    Released s t freed' asked where
  same := released.same
  disk := released.disk
  marked := fun x => by rw [released.marked, same]
  inode := released.inode
  md := released.md
  served := released.served

theorem flatfsFree_cases (s : Flat) {block : Word} (small : block.toNat < 4096) :
    ∃ bat, flatfsFree block s = .returned (⟨⟩, s.setBuffer .bat bat) ∧
      ∀ x, bitmapGet bat x = true ↔ s.marked x = true ∧ x ≠ block.toNat := by
  refine ⟨bitmapSet (s.buffer .bat) block.toNat false, ?_, fun x => ?_⟩
  · have signed : decide (block.toNat < 0x80000000) = true := decide_eq_true (by omega)
    have inside : decide (block.toNat < 8 * FLATFS_BLOCK_SIZE) = true := decide_eq_true small
    rw [flatfsFree, Prog.bind_assert_apply, if_pos signed, Prog.bind_assert_apply, if_pos inside]
    rfl
  · rw [bitmapGet_bitmapSet, marked]
    by_cases same : x = block.toNat
    · simp [same]
    · simp [same]

/-- The loops over the words of a buffer. -/
theorem freeNamed_cases {b : FlatBuffer} (other : b ≠ .bat) (n : Nat) :
    ∀ (i : Nat) (s : Flat), (∀ w, i ≤ w → w < i + n → (s.buffer b w).toNat < 4096) →
      ∃ bat, freeNamed b i n s = .returned (⟨⟩, s.setBuffer .bat bat) ∧
        ∀ x, bitmapGet bat x = true ↔ s.marked x = true ∧ ¬ Names (s.buffer b) i n x := by
  induction n with
  | zero =>
      intro i s _
      refine ⟨s.buffer .bat, ?_, fun x => ?_⟩
      · rw [freeNamed, Prog.pure_apply, Volume.setBuffer, Function.update_eq_self]
      · simp [Names, marked]
        omega
  | succ n ih =>
      intro i s small
      have split : ∀ x, Names (s.buffer b) i (n + 1) x ↔
          (0 < x ∧ (s.buffer b i).toNat = x) ∨ Names (s.buffer b) (i + 1) n x := by
        intro x
        unfold Names
        rw [← and_or_left]
        refine and_congr_right fun _ => ⟨?_, ?_⟩
        · rintro ⟨w, low, high, named⟩
          by_cases first : w = i
          · exact .inl (first ▸ named)
          · exact .inr ⟨w, by omega, by omega, named⟩
        · rintro (named | ⟨w, low, high, named⟩)
          · exact ⟨i, Nat.le_refl i, by omega, named⟩
          · exact ⟨w, by omega, by omega, named⟩
      rw [freeNamed, Prog.bind_gets_apply]
      by_cases used : 0 < (s.buffer b i).toNat
      · obtain ⟨bat, ran, marks⟩ := flatfsFree_cases s (small i (Nat.le_refl i) (by omega))
        have kept : (s.setBuffer .bat bat).buffer b = s.buffer b := by
          rw [setBuffer_buffer, Function.update_of_ne other]
        obtain ⟨bat', ran', marks'⟩ := ih (i + 1) (s.setBuffer .bat bat) fun w low high => by
          rw [kept]
          exact small w (by omega) (by omega)
        refine ⟨bat', ?_, fun x => ?_⟩
        · rw [if_pos used, Prog.bind_of_returned ran, ran']
          simp [Volume.setBuffer]
        · have mid : (s.setBuffer .bat bat).marked x = bitmapGet bat x := by
            simp [marked]
          rw [marks', mid, marks, kept, split, not_or, and_assoc]
          refine and_congr_right fun _ => and_congr_left fun _ => ?_
          constructor
          · rintro ne ⟨-, same⟩
            exact ne same.symm
          · rintro apart rfl
            exact apart ⟨used, rfl⟩
      · obtain ⟨bat', ran', marks'⟩ := ih (i + 1) s fun w low high => small w (by omega) (by omega)
        refine ⟨bat', ?_, fun x => ?_⟩
        · rw [if_neg used]
          exact ran'
        · rw [marks', split, not_or]
          refine and_congr_right fun _ => (and_iff_right ?_).symm
          rintro ⟨positive, rfl⟩
          exact used positive

/-- One table: what its 128 words name is freed. -/
theorem flatfsRemoveIndir_cases (ready : s.Ready) (todbl : Option Nat)
    (within : indWord todbl < 128) (inside : (s.pointer todbl).toNat < s.totalblocks)
    (small : ∀ w < 128, (s.blocks (s.pointer todbl).toNat w).toNat < 4096) :
    ∃ t, flatfsRemoveIndir todbl s = .returned (true, t) ∧ t.buffer .di = s.buffer .di ∧
      Released s t (Names (s.blocks (s.pointer todbl).toNat) 0 128)
        [⟨(s.pointer todbl).toNat, .read⟩] := by
  have loaded := Volume.readBlock_ready ready FlatBuffer.si inside
  have content : (s.didRead (s.pointer todbl).toNat .si).buffer .si =
      s.blocks (s.pointer todbl).toNat := by
    rw [didRead_buffer, Function.update_self]
  obtain ⟨bat, ran, marks⟩ := freeNamed_cases (b := .si) (by decide) 128 0
    (s.didRead (s.pointer todbl).toNat .si) fun w _ high => by
      rw [content]
      exact small w (by omega)
  rw [content] at marks
  refine ⟨(s.didRead (s.pointer todbl).toNat .si).setBuffer .bat bat, ?_, by simp, ?_⟩
  · have bound : decide (indWord todbl < FLATFS_BLOCKS_SINDIR) = true := decide_eq_true within
    rw [flatfsRemoveIndir, Prog.bind_assert_apply, if_pos bound, Prog.bind_gets_apply]
    change (readBlock (s.pointer todbl) .si >>= _) s = _
    rw [Prog.bind_of_returned loaded]
    simp only [if_true]
    change (freeNamed .si 0 128 >>= _) _ = _
    rw [Prog.bind_of_returned ran]
    rfl
  · refine
      { same := .trans (.didRead _ _) (.setBuffer _ _)
        disk := rfl
        marked := fun x => ?_
        inode := by simp
        md := by simp
        served := rfl }
    have after : ((s.didRead (s.pointer todbl).toNat .si).setBuffer .bat bat).marked x =
        bitmapGet bat x := by
      simp [marked]
    have before : (s.didRead (s.pointer todbl).toNat .si).marked x = s.marked x := by
      simp [marked]
    rw [after, marks, before]

/-! ## The loop over the double-indirect block -/

/-- The loop with a multiple of 128 to go. -/
theorem removeDouble_cases (rounds m : Nat) :
    ∀ (i : Nat) (s : Flat), s.Ready → i + m ≤ 128 →
      (∀ c, i ≤ c → c < i + m → (s.buffer .di c).toNat < s.totalblocks ∧
        ∀ w < 128, (s.blocks (s.buffer .di c).toNat w).toNat < 4096) →
      ∃ t, removeDouble (m + rounds) i (128 * m) s = .returned (true, t) ∧
        Released s t (fun x => ∃ c, i ≤ c ∧ c < i + m ∧
            Names (s.blocks (s.buffer .di c).toNat) 0 128 x)
          ((List.range' i m).map fun c => ⟨(s.buffer .di c).toNat, .read⟩) := by
  induction m with
  | zero =>
      intro i s _ _ _
      refine ⟨s, ?_, ?_⟩
      · cases rounds <;> rfl
      · refine (Released.refl s).congr fun x => ⟨?_, False.elim⟩
        rintro ⟨c, low, high, -⟩
        omega
  | succ m ih =>
      intro i s ready bound known
      obtain ⟨inside, small⟩ := known i (Nat.le_refl i) (by omega)
      obtain ⟨t, ran, di, first⟩ := flatfsRemoveIndir_cases ready (some i)
        (show i < 128 by omega) inside small
      obtain ⟨u, ran', rest⟩ := ih (i + 1) t (ready.same first.same) (by omega) fun c low high => by
        rw [di, first.same.totalblocks, first.disk]
        exact known c (by omega) (by omega)
      rw [di, first.disk] at rest
      have next : toUint32 (((128 * (m + 1) : Nat) : Int) - FLATFS_BLOCKS_SINDIR) = 128 * m := by
        unfold toUint32 FLATFS_BLOCKS_SINDIR
        omega
      refine ⟨u, ?_, ?_⟩
      · rw [show m + 1 + rounds = m + rounds + 1 by omega, removeDouble, if_pos (by omega),
          Prog.bind_of_returned ran]
        simp only [if_true, next]
        exact ran'
      · have both := first.append rest
        rw [List.range'_succ, List.map_cons]
        refine both.congr fun x => ⟨?_, ?_⟩
        · rintro ⟨c, low, high, named⟩
          by_cases here : c = i
          · exact .inl (here ▸ named)
          · exact .inr ⟨c, by omega, by omega, named⟩
        · rintro (named | ⟨c, low, high, named⟩)
          · exact ⟨i, Nat.le_refl i, by omega, named⟩
          · exact ⟨c, by omega, by omega, named⟩

/-- When all requests are served, reading a table does not fail. -/
theorem flatfsRemoveIndir_ran (ready : s.Ready) (todbl : Option Nat) {a : Bool}
    (ran : flatfsRemoveIndir todbl s = .returned (a, t)) : a = true ∧ t.Ready := by
  rw [flatfsRemoveIndir, Prog.bind_assert_apply] at ran
  split at ran
  · rw [Prog.bind_gets_apply] at ran
    obtain ⟨loaded, u, ran₁, ran⟩ := Prog.bind_returned.1 ran
    obtain ⟨rfl, rfl⟩ := readBlock_ran ready ran₁
    rw [if_pos rfl] at ran
    obtain ⟨done, v, ran₂, ran⟩ := Prog.bind_returned.1 ran
    cases ran
    have freed := freeNamed_logs .si FLATFS_BLOCKS_SINDIR 0 _ done _ ran₂
    exact ⟨rfl, (ready.same (.didRead _ _)).same freed.same⟩
  · cases ran

/-- **The loop returns only from multiples of 128.**  From any other number it goes on until
it leaves the buffer. -/
theorem removeDouble_ran (rounds : Nat) :
    ∀ (i tmpblocks : Nat) (s : Flat), s.Ready → rounds ≤ 128 → tmpblocks < 0x100000000 →
      ∀ a t, removeDouble rounds i tmpblocks s = .returned (a, t) →
        tmpblocks % 128 = 0 ∧ tmpblocks ≤ 128 * rounds := by
  induction rounds with
  | zero =>
      intro i tmpblocks s _ _ _ a t ran
      rw [removeDouble] at ran
      by_cases more : 0 < tmpblocks
      · rw [if_pos more] at ran
        cases ran
      · omega
  | succ rounds ih =>
      intro i tmpblocks s ready few bound a t ran
      rw [removeDouble] at ran
      by_cases more : 0 < tmpblocks
      · rw [if_pos more] at ran
        obtain ⟨done, u, ran₁, ran⟩ := Prog.bind_returned.1 ran
        obtain ⟨rfl, ready'⟩ := flatfsRemoveIndir_ran ready _ ran₁
        rw [if_pos rfl] at ran
        have rest := ih (i + 1) _ u ready' (by omega) (by unfold toUint32; omega) a t ran
        unfold toUint32 FLATFS_BLOCKS_SINDIR at rest
        omega
      · omega

end Volume

/-! ## What a file names -/

section Named

variable {blocks : Nat → Block} {ino : Block} {c w x : Nat}

/-- A slot of a table names a block of the file, or nothing. -/
theorem slot_cases (file : FlatFile blocks ino) (less : c < tables (flatCount ino))
    (inside : w < 128) :
    (blocks (tableAt ino (flatDi blocks ino) c).toNat w).toNat ∈ flatData blocks ino ∨
      blocks (tableAt ino (flatDi blocks ino) c).toNat w = 0 := by
  by_cases within : 7 + 128 * c + w < flatCount ino
  · left
    refine mem_mapped.2 ⟨7 + 128 * c + w, within, ?_⟩
    have table : tableOf (7 + 128 * c + w) = c := by
      unfold tableOf
      omega
    have slot : slotOf (7 + 128 * c + w) = w := by
      unfold slotOf
      omega
    rw [blockAt, if_neg (by omega), table, slot]
  · exact .inr (file.slots c less w inside (by omega))

/-- So does a direct pointer. -/
theorem direct_cases (file : FlatFile blocks ino) (inside : w < 7) :
    (ino (directWord w)).toNat ∈ flatData blocks ino ∨ ino (directWord w) = 0 := by
  by_cases within : w < flatCount ino
  · left
    refine mem_mapped.2 ⟨w, within, ?_⟩
    rw [blockAt, if_pos inside]
  · exact .inr (file.tail w (by omega) inside)

/-- **The blocks of a file** are the ones that its pointers and tables name. -/
theorem flatData_iff (file : FlatFile blocks ino) (positive : ∀ b ∈ flatData blocks ino, 0 < b) :
    x ∈ flatData blocks ino ↔ Names ino (directWord 0) 7 x ∨
      ∃ c < tables (flatCount ino), Names (blocks (tableAt ino (flatDi blocks ino) c).toNat) 0 128 x := by
  constructor
  · intro mem
    have nonzero := positive x mem
    obtain ⟨b, less, named⟩ := mem_mapped.1 mem
    unfold blockAt at named
    by_cases direct : b < 7
    · rw [if_pos direct] at named
      exact .inl ⟨nonzero, directWord b, by unfold directWord; omega, by unfold directWord; omega,
        named⟩
    · rw [if_neg direct] at named
      exact .inr ⟨tableOf b, tableOf_lt (by omega) less, nonzero, slotOf b, Nat.zero_le _,
        by have := slotOf_lt b; omega, named⟩
  · rintro (⟨nonzero, w, low, high, named⟩ | ⟨c, less, nonzero, w, -, high, named⟩)
    · unfold directWord at low high
      rcases direct_cases file (w := w - 1) (by omega) with mem | zero
      · rwa [directWord, show 1 + (w - 1) = w by omega, named] at mem
      · rw [directWord, show 1 + (w - 1) = w by omega] at zero
        rw [zero] at named
        exact absurd (named.symm : x = 0) (Nat.ne_of_gt nonzero)
    · rcases slot_cases file less (w := w) (by omega) with mem | zero
      · rwa [named] at mem
      · rw [zero] at named
        exact absurd (named.symm : x = 0) (Nat.ne_of_gt nonzero)

/-- `numblocks`, as `flatfs_remove` works it out. -/
def removeCount (ino : Block) : Nat :=
  toUint32 ((ino 0).toNat + FLATFS_BLOCK_SIZE - 1) / FLATFS_BLOCK_SIZE

/-- It is the number of blocks of a file with a double-indirect block. -/
theorem removeCount_eq (file : FlatFile blocks ino) (large : 135 < flatCount ino) :
    removeCount ino = flatCount ino := by
  have bound := file.bound
  have size := (ino 0).isLt
  unfold FLATFS_MAX_BLOCKS FLATFS_BLOCKS_DIRECT FLATFS_BLOCKS_SINDIR FLATFS_BLOCKS_DINDIR at bound
  unfold flatCount blocksOf fileSize at *
  unfold removeCount toUint32 FLATFS_BLOCK_SIZE
  by_cases positive : (ino 0).toNat < 0x80000000
  · rw [toInt32_eq (by omega) (by omega)] at *
    omega
  · rw [toInt32_wrap (by omega) (by omega)] at large
    omega

end Named

/-- The tables that the double-indirect block names for the file. -/
def secondLevel (blocks : Nat → Block) (ino : Block) : List Nat :=
  (List.range ((flatCount ino - 135 + 127) / 128)).map fun c => (flatDi blocks ino c).toNat

/-- The reads of the loop over the double-indirect block, and that of the block itself. -/
def doubleRequests (blocks : Nat → Block) (ino : Block) : List Request :=
  if 135 < flatCount ino then
    ⟨(ino dblIndirWord).toNat, .read⟩ :: (secondLevel blocks ino).map fun b => ⟨b, .read⟩
  else []

def singleRequests (ino : Block) : List Request :=
  if 7 < flatCount ino then [⟨(ino indirWord).toNat, .read⟩] else []

/-- The bitmap, then the directory. -/
def storeRequests : List Request := [⟨1, .write⟩, ⟨2, .write⟩]

namespace Volume

variable {s t u : Flat} {j : Nat}

/-- The marks that the second-level tables clear. -/
def SecondFreed (s : Flat) (x : Nat) : Prop :=
  ∃ c, 0 < c ∧ c < tables (flatCount (s.buffer .inode)) ∧
    Names (s.blocks (tableAt (s.buffer .inode) (flatDi s.blocks (s.buffer .inode)) c).toNat) 0 128 x

/-- The marks that the single-indirect table clears. -/
def SingleFreed (s : Flat) (x : Nat) : Prop :=
  0 < tables (flatCount (s.buffer .inode)) ∧
    Names (s.blocks (s.buffer .inode indirWord).toNat) 0 128 x

/-- The file of entry `j`, the directory and the bitmap are in their buffers. -/
structure Loading (s : Flat) (j : Nat) : Prop where
  ready : s.Ready
  room : 3 ≤ s.totalblocks
  image : FlatImage s.totalblocks s.blocks
  used : Used (s.blocks 2) j
  inode : s.buffer .inode = s.blocks (inodeOf s.blocks j)
  bat : s.buffer .bat = s.blocks 1
  md : s.buffer .md = s.blocks 2

namespace Loading

variable (loading : Loading s j)

include loading

theorem file : FlatFile s.blocks (s.buffer .inode) := by
  rw [loading.inode]
  exact loading.image.file j loading.used

theorem part {b : Nat} (mem : b ∈ flatParts s.blocks (s.buffer .inode)) :
    3 ≤ b ∧ b < s.totalblocks := by
  rw [loading.inode] at mem
  obtain ⟨above, inside, -⟩ := loading.image.owned (FlatImage.part_mem loading.used mem)
  exact ⟨above, inside⟩

/-- A table of the file can be read in, and what it names can be freed. -/
theorem table {c : Nat} (less : c < tables (flatCount (s.buffer .inode))) :
    3 ≤ (tableAt (s.buffer .inode) (flatDi s.blocks (s.buffer .inode)) c).toNat ∧
      (tableAt (s.buffer .inode) (flatDi s.blocks (s.buffer .inode)) c).toNat < s.totalblocks ∧
      ∀ w < 128, (s.blocks (tableAt (s.buffer .inode)
        (flatDi s.blocks (s.buffer .inode)) c).toNat w).toNat < 4096 := by
  obtain ⟨above, inside⟩ := loading.part (table_mem_parts (mem_tabled.2 ⟨c, less, rfl⟩))
  refine ⟨above, inside, fun w within => ?_⟩
  have small := loading.ready.small
  rcases slot_cases loading.file less within with mem | zero
  · have := (loading.part (data_mem_parts mem)).2
    omega
  · rw [zero]
    decide

theorem double (large : 135 < flatCount (s.buffer .inode)) :
    s.buffer .inode dblIndirWord ≠ 0 ∧
      (s.buffer .inode dblIndirWord).toNat < s.totalblocks := by
  obtain ⟨above, inside⟩ := loading.part (double_mem_parts large)
  refine ⟨fun zero => ?_, inside⟩
  rw [zero] at above
  exact absurd above (by decide)

/-- The tables that a removal reads are not block 0. -/
theorem requests_nonzero : ∀ request ∈ doubleRequests s.blocks (s.buffer .inode) ++
    singleRequests (s.buffer .inode), request.block ≠ 0 := by
  have positive : ∀ {b : Nat}, b ∈ flatParts s.blocks (s.buffer .inode) → b ≠ 0 := fun mem => by
    have := (loading.part mem).1
    omega
  have table : ∀ {c : Nat}, c < tables (flatCount (s.buffer .inode)) →
      (tableAt (s.buffer .inode) (flatDi s.blocks (s.buffer .inode)) c).toNat ≠ 0 :=
    fun less => positive (table_mem_parts (mem_tabled.2 ⟨_, less, rfl⟩))
  intro request mem
  rcases List.mem_append.1 mem with mem | mem
  · unfold doubleRequests at mem
    split at mem
    · rename_i large
      rcases List.mem_cons.1 mem with rfl | mem
      · exact positive (double_mem_parts large)
      · obtain ⟨b, second, rfl⟩ := List.mem_map.1 mem
        obtain ⟨c, less, rfl⟩ := List.mem_map.1 second
        have within := List.mem_range.1 less
        exact table (c := c + 1) (by unfold tables; omega)
    · cases mem
  · unfold singleRequests at mem
    split at mem
    · obtain rfl := List.mem_singleton.1 mem
      exact table (c := 0) (by unfold tables; omega)
    · cases mem

/-- **The double-indirect part**, when the loop ends. -/
theorem removeDouble_done (even : (flatCount (s.buffer .inode) - 135) % 128 = 0)
    (large : 135 < flatCount (s.buffer .inode)) :
    ∃ t, removeDouble 128 0 (flatCount (s.buffer .inode) - 135)
        (s.didRead (s.buffer .inode dblIndirWord).toNat .di) = .returned (true, t) ∧
      Released s t (SecondFreed s) (doubleRequests s.blocks (s.buffer .inode)) := by
  obtain ⟨m, count⟩ : ∃ m, flatCount (s.buffer .inode) - 135 = 128 * m :=
    ⟨(flatCount (s.buffer .inode) - 135) / 128, by omega⟩
  have bound := loading.file.bound
  unfold FLATFS_MAX_BLOCKS FLATFS_BLOCKS_DIRECT FLATFS_BLOCKS_SINDIR FLATFS_BLOCKS_DINDIR at bound
  have tabs : tables (flatCount (s.buffer .inode)) = m + 1 := by
    unfold tables
    omega
  have di : (s.didRead (s.buffer .inode dblIndirWord).toNat .di).buffer .di =
      flatDi s.blocks (s.buffer .inode) := by
    rw [didRead_buffer, Function.update_self]
    rfl
  have known : ∀ c, 0 ≤ c → c < 0 + m → (flatDi s.blocks (s.buffer .inode) c).toNat <
      s.totalblocks ∧
        ∀ w < 128, (s.blocks (flatDi s.blocks (s.buffer .inode) c).toNat w).toNat < 4096 := by
    intro c _ high
    obtain ⟨-, inside, small⟩ := loading.table (c := c + 1) (by omega)
    exact ⟨inside, small⟩
  obtain ⟨t, ran, released⟩ := removeDouble_cases (128 - m) m 0
    (s.didRead (s.buffer .inode dblIndirWord).toNat .di)
    (loading.ready.same (.didRead _ _)) (by omega) (by rw [di]; exact known)
  rw [show m + (128 - m) = 128 by omega] at ran
  rw [di] at released
  refine ⟨t, by rw [count]; exact ran, ?_⟩
  have level : secondLevel s.blocks (s.buffer .inode) =
      (List.range m).map fun c => (flatDi s.blocks (s.buffer .inode) c).toNat := by
    unfold secondLevel
    rw [count, show (128 * m + 127) / 128 = m by omega]
  refine
    { same := (Same.didRead _ _).trans released.same
      disk := released.disk
      marked := fun x => ?_
      inode := released.inode.trans (by simp)
      md := released.md.trans (by simp)
      served := ?_ }
  · have before : (s.didRead (s.buffer .inode dblIndirWord).toNat .di).marked x = s.marked x := by
      simp [marked]
    rw [released.marked, before]
    refine and_congr_right fun _ => not_congr ⟨?_, ?_⟩
    · rintro ⟨c, -, high, named⟩
      exact ⟨c + 1, Nat.succ_pos c, by omega, named⟩
    · rintro ⟨c, low, high, named⟩
      refine ⟨c - 1, Nat.zero_le _, by omega, ?_⟩
      unfold tableAt at named
      rw [if_neg (by omega)] at named
      exact named
  · rw [released.served, doubleRequests, if_pos large, level, ← List.range_eq_range',
      List.map_map]
    change _ ++ (⟨_, .read⟩ :: s.disk.served) = _
    simp

end Loading

/-- **The last steps** clear the marks of the inode and of the direct blocks, and the entry. -/
theorem removeStore_cases (ready : s.Ready) (room : 3 ≤ s.totalblocks)
    (small : (entryInode (s.buffer .md) j).toNat < 4096)
    (direct : ∀ w < 7, (s.buffer .inode (directWord w)).toNat < 4096) :
    ∃ t, removeStore j s = .returned (VFS_OK, { t with lock := t.lock + 1 }) ∧ Volume.Same s t ∧
      (∀ x, bitmapGet (t.blocks 1) x = true ↔ s.marked x = true ∧
        ¬ (x = (entryInode (s.buffer .md) j).toNat ∨
          Names (s.buffer .inode) (directWord 0) 7 x)) ∧
      t.blocks 2 = clearEntry (s.buffer .md) j ∧
      (∀ b, b ≠ 1 → b ≠ 2 → t.blocks b = s.blocks b) ∧
      t.disk.served = [⟨2, .write⟩, ⟨1, .write⟩] ++ s.disk.served := by
  obtain ⟨bat, ran, marks⟩ := flatfsFree_cases s small
  obtain ⟨bat', ran', marks'⟩ := freeNamed_cases (b := .inode) (by decide) FLATFS_BLOCKS_DIRECT
    (directWord 0) (s.setBuffer .bat bat) fun w low high => by
      have := direct (w - 1) (by unfold directWord FLATFS_BLOCKS_DIRECT at *; omega)
      simpa [directWord, show 1 + (w - 1) = w by unfold directWord at low; omega] using this
  let w : Flat := ((s.setBuffer .bat bat).setBuffer .bat bat').setBuffer .md
    (clearEntry (s.buffer .md) j)
  have same : Volume.Same s w := ⟨rfl, rfl, rfl, rfl⟩
  have stored := writeBat (ready.same same) room
  have written := writeMd ((ready.same same).same (Same.didWrite 1 (w.buffer .bat))) room
  have cleared : (((s.setBuffer .bat bat).setBuffer .bat bat').setWord .md (5 * j) 0).setBuffer .md
      (memcopy 1 ((((s.setBuffer .bat bat).setBuffer .bat bat').setWord .md (5 * j) 0).buffer .md)
        (20 * j + 4) fun _ => 0) = w := by
    simp [w, clearEntry, Volume.setWord, Volume.setBuffer]
  refine ⟨(w.didWrite 1 (w.buffer .bat)).didWrite 2 (w.buffer .md), ?_,
    same.trans (.trans (Same.didWrite _ _) (Same.didWrite _ _)), ?_, ?_, ?_, rfl⟩
  · rw [removeStore, Prog.bind_gets_apply, Prog.bind_of_returned ran, Prog.bind_of_returned ran',
      Prog.bind_modify_apply, Prog.bind_modify_apply, cleared, Prog.bind_of_returned stored]
    simp only [if_true]
    rw [Prog.bind_of_returned written]
    rfl
  · intro x
    have mid : (s.setBuffer .bat bat).marked x = bitmapGet bat x := by simp [marked]
    have inode : (s.setBuffer .bat bat).buffer .inode = s.buffer .inode := by simp
    have last : ((w.didWrite 1 (w.buffer .bat)).didWrite 2 (w.buffer .md)).blocks 1 = bat' := by
      simp [w]
    rw [last, marks', mid, marks, inode, not_or, and_assoc]
    rfl
  · simp [w]
  · intro b notBitmap notDirectory
    simp [Function.update_of_ne notBitmap, Function.update_of_ne notDirectory, w]

/-- What is left when the double-indirect part is done. -/
def removeRest (index : Nat) (cleared : Bool) : Prog Flat Int :=
  if cleared then do
    let indir ← Prog.gets fun s => s.buffer .inode indirWord
    let cleared ← if 0 < indir.toNat then flatfsRemoveIndir none else pure true
    if cleared then removeStore index else unlock VFS_ERROR
  else unlock VFS_ERROR

theorem removeBlocks_of_double {numblocks : Nat} (number : removeCount (s.buffer .inode) = numblocks)
    (large : FLATFS_BLOCKS_DIRECT + FLATFS_BLOCKS_SINDIR < numblocks)
    (named : s.buffer .inode dblIndirWord ≠ 0)
    (read : readBlock (s.buffer .inode dblIndirWord) .di s = .returned (true, t)) :
    removeBlocks j s = (removeDouble FLATFS_BLOCKS_SINDIR 0
      (numblocks - FLATFS_BLOCKS_DIRECT - FLATFS_BLOCKS_SINDIR) >>= removeRest j) t := by
  unfold removeCount at number
  rw [removeBlocks, Prog.bind_gets_apply, Prog.bind_gets_apply, number]
  dsimp only
  rw [if_pos ⟨large, named⟩, Prog.bind_of_returned read]
  simp only [if_true]
  refine congrFun (Prog.bind_congr fun cleared => ?_) t
  rw [removeRest]

theorem removeBlocks_of_none {numblocks : Nat} (number : removeCount (s.buffer .inode) = numblocks)
    (none : ¬ (FLATFS_BLOCKS_DIRECT + FLATFS_BLOCKS_SINDIR < numblocks ∧
      s.buffer .inode dblIndirWord ≠ 0)) :
    removeBlocks j s = removeRest j true s := by
  unfold removeCount at number
  rw [removeBlocks, Prog.bind_gets_apply, Prog.bind_gets_apply, number]
  dsimp only
  rw [if_neg none, Prog.bind_pure_apply, removeRest]

theorem removeRest_of_returned
    (ran : (if 0 < (s.buffer .inode indirWord).toNat then flatfsRemoveIndir none
      else pure true) s = .returned (true, t)) :
    removeRest j true s = removeStore j t := by
  rw [removeRest, if_pos rfl, Prog.bind_gets_apply]
  by_cases used : 0 < (s.buffer .inode indirWord).toNat
  · rw [if_pos used] at ran ⊢
    rw [Prog.bind_of_returned ran]
    simp only [if_true]
  · rw [if_neg used] at ran ⊢
    rw [Prog.bind_of_returned ran]
    simp only [if_true]

namespace Loading

variable (loading : Loading s j)

include loading

/-- `flatfs_remove` looks at the double-indirect block of a file that has one. -/
theorem removeBlocks_long (large : 135 < flatCount (s.buffer .inode)) :
    removeBlocks j s = (removeDouble 128 0 (flatCount (s.buffer .inode) - 135) >>= removeRest j)
      (s.didRead (s.buffer .inode dblIndirWord).toNat .di) := by
  obtain ⟨named, inside⟩ := loading.double large
  rw [removeBlocks_of_double (removeCount_eq loading.file large) large named
    (readBlock_ready loading.ready FlatBuffer.di inside), Nat.sub_sub,
    show FLATFS_BLOCKS_DIRECT + FLATFS_BLOCKS_SINDIR = 135 from rfl,
    show FLATFS_BLOCKS_SINDIR = 128 from rfl]

theorem removeBlocks_short (low : ¬ 135 < flatCount (s.buffer .inode)) :
    removeBlocks j s = removeRest j true s :=
  removeBlocks_of_none rfl fun cond => cond.2 (loading.file.double (Nat.le_of_not_lt low))

/-- What a removal leaves behind: the marks of the inode and of the data are cleared, and the
entry is unused. -/
structure Dropped (s t : Flat) (j : Nat) (asked : List Request) : Prop where
  same : Volume.Same s t
  marks : ∀ x, bitmapGet (t.blocks 1) x = true ↔ s.marked x = true ∧
    ¬ (x = inodeOf s.blocks j ∨ x ∈ flatData s.blocks (s.buffer .inode))
  directory : t.blocks 2 = clearEntry (s.blocks 2) j
  kept : ∀ b, b ≠ 1 → b ≠ 2 → t.blocks b = s.blocks b
  served : t.disk.served =
    (asked ++ singleRequests (s.buffer .inode) ++ storeRequests).reverse ++ s.disk.served

/-- The single-indirect table. -/
theorem removeSingle_done {asked : List Request} {freed : Nat → Prop}
    (released : Released s t freed asked) :
    ∃ u, (if 0 < (s.buffer .inode indirWord).toNat then flatfsRemoveIndir none
        else pure true) t = .returned (true, u) ∧
      Released t u (SingleFreed s) (singleRequests (s.buffer .inode)) := by
  have ready := loading.ready.same released.same
  have pointer : t.pointer none = s.buffer .inode indirWord := by
    unfold pointer indBuffer indWord
    rw [← released.inode]
    rfl
  by_cases long : 7 < flatCount (s.buffer .inode)
  · have first : 0 < tables (flatCount (s.buffer .inode)) := by
      unfold tables
      omega
    obtain ⟨above, inside, entries⟩ := loading.table first
    rw [tableAt, if_pos rfl] at above inside entries
    obtain ⟨u, ran, -, released'⟩ := flatfsRemoveIndir_cases ready none (by decide)
      (by rw [pointer, released.same.totalblocks]; exact inside)
      (by rw [pointer, released.disk]; exact entries)
    rw [pointer, released.disk] at released'
    refine ⟨u, ?_, ?_⟩
    · rw [if_pos (by omega)]
      exact ran
    · rw [singleRequests, if_pos long]
      exact released'.congr fun x => and_iff_right first
  · have none : tables (flatCount (s.buffer .inode)) = 0 := tables_of_le (by omega)
    have zero := loading.file.single (by omega)
    refine ⟨t, ?_, ?_⟩
    · rw [zero, if_neg (by decide), Prog.pure_apply]
    · rw [singleRequests, if_neg long]
      refine (Released.refl t).congr fun x => ⟨fun some => ?_, False.elim⟩
      exact absurd some.1 (by omega)

/-- All marks together: the inode's, and those of the data. -/
theorem freed_iff (x : Nat) :
    (SecondFreed s x ∨ SingleFreed s x) ∨
        (x = inodeOf s.blocks j ∨ Names (s.buffer .inode) (directWord 0) 7 x) ↔
      x = inodeOf s.blocks j ∨ x ∈ flatData s.blocks (s.buffer .inode) := by
  rw [flatData_iff loading.file fun b mem => Nat.lt_of_lt_of_le (by decide)
    (loading.part (data_mem_parts mem)).1]
  constructor
  · rintro ((⟨c, -, less, named⟩ | ⟨first, named⟩) | isInode | named)
    · exact .inr (.inr ⟨c, less, named⟩)
    · exact .inr (.inr ⟨0, first, named⟩)
    · exact .inl isInode
    · exact .inr (.inl named)
  · rintro (isInode | named | ⟨c, less, named⟩)
    · exact .inr (.inl isInode)
    · exact .inr (.inr named)
    · by_cases first : c = 0
      · subst first
        exact .inl (.inr ⟨less, named⟩)
      · exact .inl (.inl ⟨c, Nat.pos_of_ne_zero first, less, named⟩)

/-- The single-indirect table, and the last steps. -/
theorem removeRest_done {asked : List Request} (released : Released s t (SecondFreed s) asked) :
    ∃ u, removeRest j true t = .returned (VFS_OK, { u with lock := u.lock + 1 }) ∧
      Dropped s u j asked := by
  have small := loading.ready.small
  obtain ⟨inodeAbove, inodeInside⟩ := loading.image.inode_inside loading.used
  obtain ⟨v, ran, released'⟩ := loading.removeSingle_done released
  have both := released.append released'
  have md : v.buffer .md = s.blocks 2 := both.md.trans loading.md
  have entry : (entryInode (v.buffer .md) j).toNat = inodeOf s.blocks j := by
    rw [md]
    rfl
  have direct : ∀ w < 7, (v.buffer .inode (directWord w)).toNat < 4096 := by
    intro w inside
    rw [both.inode]
    rcases direct_cases loading.file inside with mem | zero
    · have := (loading.part (data_mem_parts mem)).2
      omega
    · rw [zero]
      decide
  obtain ⟨u, stored, same, marks, directory, kept, served⟩ := removeStore_cases
    (loading.ready.same both.same) (by rw [both.same.totalblocks]; exact loading.room)
    (by rw [entry]; omega) direct
  refine ⟨u, ?_, both.same.trans same, ?_, by rw [directory, md], ?_, ?_⟩
  · rw [← released.inode] at ran
    rw [removeRest_of_returned ran, stored]
  · intro x
    rw [marks, both.marked, entry, both.inode, and_assoc, ← not_or]
    exact and_congr_right fun _ => not_congr (loading.freed_iff x)
  · intro b notBitmap notDirectory
    rw [kept b notBitmap notDirectory, both.disk]
  · have stores : ([⟨2, .write⟩, ⟨1, .write⟩] : List Request) = storeRequests.reverse := rfl
    rw [served, both.served, stores, ← List.append_assoc, ← List.reverse_append]

/-- **`flatfs_remove` with the buffers read in** ends when the blocks past the 135th are a
multiple of 128. -/
theorem removeBlocks_done (even : (flatCount (s.buffer .inode) - 135) % 128 = 0) :
    ∃ t, removeBlocks j s = .returned (VFS_OK, { t with lock := t.lock + 1 }) ∧
      Dropped s t j (doubleRequests s.blocks (s.buffer .inode)) := by
  by_cases large : 135 < flatCount (s.buffer .inode)
  · obtain ⟨v, ran, released⟩ := loading.removeDouble_done even large
    rw [loading.removeBlocks_long large, Prog.bind_of_returned ran]
    exact loading.removeRest_done released
  · rw [loading.removeBlocks_short large]
    have none : doubleRequests s.blocks (s.buffer .inode) = [] := if_neg large
    rw [none]
    refine loading.removeRest_done ((Released.refl s).congr fun x => ⟨?_, False.elim⟩)
    rintro ⟨c, low, high, -⟩
    unfold tables at high
    omega

/-- And only then. -/
theorem removeBlocks_ran {result : Int} (ran : removeBlocks j s = .returned (result, t)) :
    (flatCount (s.buffer .inode) - 135) % 128 = 0 := by
  have bound := loading.file.bound
  unfold FLATFS_MAX_BLOCKS FLATFS_BLOCKS_DIRECT FLATFS_BLOCKS_SINDIR FLATFS_BLOCKS_DINDIR at bound
  by_cases large : 135 < flatCount (s.buffer .inode)
  · rw [loading.removeBlocks_long large] at ran
    obtain ⟨done, u, ran, -⟩ := Prog.bind_returned.1 ran
    exact (removeDouble_ran 128 0 _ _ (loading.ready.same (.didRead _ _)) (Nat.le_refl _)
      (by omega) done u ran).1
  · omega

end Loading

end Volume

/-- The image without the file of entry `j`; its tables stay marked. -/
structure FlatCleared (blocks blocks' : Nat → Block) (j : Nat) : Prop where
  used : Used (blocks 2) j
  marks : ∀ b, Marked blocks' b ↔ Marked blocks b ∧
    ¬ (b = inodeOf blocks j ∨ b ∈ flatData blocks (blocks (inodeOf blocks j)))
  directory : EntrySet (blocks 2) (blocks' 2) j [] 0
  kept : ∀ b, b ≠ 1 → b ≠ 2 → blocks' b = blocks b

/-- The entry owns nothing any more; the other entries keep what they own. -/
theorem FlatCleared.slots {n : Nat} {blocks blocks' : Nat → Block} {j : Nat}
    (image : FlatImage n blocks) (cleared : FlatCleared blocks blocks' j) :
    flatSlots blocks' j = [] ∧ FlatImage.Others blocks blocks' j := by
  refine ⟨FlatImage.slots_unused fun used => used.2 cleared.directory.inode,
    cleared.directory.inodes, fun k _ b mem => ?_⟩
  obtain ⟨low, -, -⟩ := image.owned mem
  exact cleared.kept b (by omega) (by omega)

/-- **A file less** keeps the image consistent. -/
theorem FlatCleared.image' {n : Nat} {blocks blocks' : Nat → Block} {j : Nat}
    (image : FlatImage n blocks) (cleared : FlatCleared blocks blocks' j) :
    FlatImage n blocks' := by
  have unused : ¬ Used (blocks' 2) j := fun used => used.2 cleared.directory.inode
  obtain ⟨none, others⟩ := cleared.slots image
  refine image.exchange others ?_ ?_ ?_ ?_ (fun used => absurd used unused) ?_ ?_
  · rw [none]
    exact List.nodup_nil
  · rw [none]
    exact fun b mem => absurd mem List.not_mem_nil
  · intro b marked notMine
    refine (cleared.marks b).2 ⟨marked, ?_⟩
    rintro (rfl | mem)
    · exact notMine (FlatImage.inode_mem cleared.used)
    · exact notMine (FlatImage.part_mem cleared.used (data_mem_parts mem))
  · rw [none]
    exact fun b mem => absurd mem List.not_mem_nil
  · exact cleared.directory.blanked (fun _ => rfl) image.blanked
  · exact cleared.directory.terminated (Nat.succ_pos _) image.terminated

/-- What a removal that ends asks the disk for: the directory, the bitmap, the inode, the
tables, and the two writes. -/
def removeRequests (blocks : Nat → Block) (j : Nat) : List Request :=
  [⟨2, .read⟩, ⟨1, .read⟩, ⟨inodeOf blocks j, .read⟩] ++
    (doubleRequests blocks (blocks (inodeOf blocks j)) ++
      singleRequests (blocks (inodeOf blocks j)) ++ storeRequests)

section Operations

variable {s t : Flat} (mounted : FlatMounted s)

include mounted

/-- The buffers when a file was found. -/
theorem flatfsRemove_loading {filename : Name} {j : Nat}
    (found : findEntry (s.blocks 2) filename = some j) (used : Used (s.blocks 2) j) :
    ∃ u, flatfsRemove filename s = removeBlocks j u ∧ u.Loading j ∧ Volume.Same s.locked u ∧
      u.blocks = s.blocks ∧
      u.disk.served =
        [⟨2, .read⟩, ⟨1, .read⟩, ⟨inodeOf s.blocks j, .read⟩].reverse ++ s.disk.served := by
  obtain ⟨ready, free, room, image⟩ := mounted
  obtain ⟨-, inside⟩ := image.inode_inside used
  have loaded : Volume.Same s.locked (s.locked.didRead 2 FlatBuffer.md) := .didRead 2 _
  have sameBat := loaded.trans (Volume.Same.didRead 1 FlatBuffer.bat)
  have inode : readBlock (entryInode (s.blocks 2) j) FlatBuffer.inode _ = _ :=
    Volume.readBlock_ready (ready.locked.same sameBat) FlatBuffer.inode inside
  have same := sameBat.trans (Volume.Same.didRead (inodeOf s.blocks j) FlatBuffer.inode)
  refine ⟨_, ?_, ?_, same, rfl, rfl⟩
  · rw [flatfsRemove, Prog.bind_of_returned (Volume.lockP_free free),
      Prog.bind_of_returned (Volume.readMd ready.locked room)]
    simp only [if_true, Prog.bind_gets_apply, Volume.didRead_buffer, Function.update_self,
      Volume.locked_blocks, found]
    rw [Prog.bind_of_returned (Volume.readBat (ready.locked.same loaded) room)]
    simp only [if_true]
    rw [Prog.bind_of_returned inode]
    simp only [if_true]
    unfold inodeOf
    rfl
  · exact
      { ready := ready.locked.same same
        room := room
        image := image
        used := used
        inode := by simp
        bat := by simp
        md := by simp }

/-- **`flatfs_remove`** of a file ends exactly when the blocks past the 135th are a multiple of
128, and then the file is gone. -/
theorem flatfsRemove_cases {filename : Name} {j : Nat}
    (found : findEntry (s.blocks 2) filename = some j) (used : Used (s.blocks 2) j) :
    ((flatCount (s.blocks (inodeOf s.blocks j)) - 135) % 128 = 0 →
      ∃ t, flatfsRemove filename s = .returned (VFS_OK, t) ∧ Volume.Same s t ∧
        FlatCleared s.blocks t.blocks j ∧
        t.disk.served = (removeRequests s.blocks j).reverse ++ s.disk.served) ∧
      ∀ result t, flatfsRemove filename s = .returned (result, t) →
        (flatCount (s.blocks (inodeOf s.blocks j)) - 135) % 128 = 0 := by
  obtain ⟨u, step, loading, same, disk, served⟩ := flatfsRemove_loading mounted found used
  have inode := loading.inode
  rw [disk] at inode
  rw [step]
  constructor
  · intro even
    obtain ⟨t, ran, dropped⟩ := loading.removeBlocks_done (by rw [inode]; exact even)
    have marks := dropped.marks
    have directory := dropped.directory
    have kept := dropped.kept
    have asked := dropped.served
    rw [disk] at directory kept
    rw [disk, inode] at marks asked
    refine ⟨_, ran, (same.trans dropped.same).unlock, ⟨used, ?_, ?_, kept⟩, ?_⟩
    · intro b
      have bat : u.marked b = bitmapGet (s.blocks 1) b := by
        rw [Volume.marked, loading.bat, disk]
      have after := marks b
      rw [bat] at after
      exact (and_congr_right fun _ => after).trans and_assoc.symm
    · have cleared := entrySet_clear mounted.image.terminated used.1
      rw [← directory] at cleared
      exact cleared
    · refine asked.trans ?_
      rw [served, ← List.append_assoc, ← List.reverse_append, removeRequests]
  · intro result t ran
    rw [← inode]
    exact loading.removeBlocks_ran ran

/-- **The loop over the double-indirect block** visits the second-level tables of the file,
none of them block 0, and ends, if and only if the file has no such tables or fills all of
them. -/
theorem flatfsRemove_iff {filename : Name} {j : Nat}
    (found : findEntry (s.blocks 2) filename = some j) (used : Used (s.blocks 2) j) :
    (((flatfsRemove filename).Ends s fun _ t =>
        t.disk.served = (removeRequests s.blocks j).reverse ++ s.disk.served) ∧
      ∀ request ∈ doubleRequests s.blocks (s.blocks (inodeOf s.blocks j)) ++
        singleRequests (s.blocks (inodeOf s.blocks j)), request.block ≠ 0) ↔
      flatCount (s.blocks (inodeOf s.blocks j)) ≤ 135 ∨
        (flatCount (s.blocks (inodeOf s.blocks j)) - 135) % 128 = 0 := by
  obtain ⟨ends, only⟩ := flatfsRemove_cases mounted found used
  obtain ⟨u, -, loading, -, disk, -⟩ := flatfsRemove_loading mounted found used
  have inode := loading.inode
  rw [disk] at inode
  constructor
  · rintro ⟨⟨result, t, ran, -⟩, -⟩
    exact .inr (only result t ran)
  · intro condition
    obtain ⟨t, ran, -, -, served⟩ := ends (by omega)
    refine ⟨⟨_, t, ran, served⟩, ?_⟩
    have nonzero := loading.requests_nonzero
    rw [disk, inode] at nonzero
    exact nonzero

end Operations

def twoHundredBlocks : Flat :=
  Volume.idle 200 fun b => if b = 1 then systemBitmap else zeroblock

theorem flatMounted_twoHundredBlocks : FlatMounted twoHundredBlocks where
  ready := Volume.ready_idle (by decide) _
  free := by decide
  room := by decide
  image := FlatImage.empty (fun _ small => systemBitmap_get.2 small) (by decide +kernel)

/-- One block more than the single-indirect table reaches. -/
def firstDouble : CInt := ⟨69632, by decide⟩

/-- **A file of 136 blocks cannot be removed**: the call does not return. -/
theorem flatfsRemove_firstDouble :
    (flatfsCreate newName firstDouble).Ends twoHundredBlocks fun result t =>
      result = VFS_OK ∧ ¬ (flatfsRemove newName).Ends t fun _ _ => True := by
  have can : Creatable twoHundredBlocks.totalblocks twoHundredBlocks.blocks newName firstDouble :=
    ⟨by decide, by decide +kernel, findSlot_of_unused (j := 0) (by decide) rfl, by decide +kernel⟩
  refine (flatfsCreate_found flatMounted_twoHundredBlocks (by decide) can).mono ?_
  rintro _ t ⟨done, mounted, j, found, used, count⟩
  refine ⟨done, ?_⟩
  rintro ⟨result, u, ran, -⟩
  have condition := (flatfsRemove_cases mounted found used).2 result u ran
  rw [count] at condition
  exact absurd condition (by decide)

def threeHundredBlocks : Flat :=
  Volume.idle 300 fun b => if b = 1 then systemBitmap else zeroblock

theorem flatMounted_threeHundredBlocks : FlatMounted threeHundredBlocks where
  ready := Volume.ready_idle (by decide) _
  free := by decide
  room := by decide
  image := FlatImage.empty (fun _ small => systemBitmap_get.2 small) (by decide +kernel)

/-- 263 blocks: all that the single-indirect table and one second-level table reach. -/
def fullTable : CInt := ⟨134656, by decide⟩

/-- The loop over the second-level tables is entered, and the removal makes all its requests. -/
theorem flatfsRemove_iff_fullTable :
    (flatfsCreate newName fullTable).Ends threeHundredBlocks fun result t => result = VFS_OK ∧
      (flatfsRemove newName).Ends t fun _ u => ∃ j, 135 < flatCount (t.blocks (inodeOf t.blocks j)) ∧
        u.disk.served = (removeRequests t.blocks j).reverse ++ t.disk.served ∧
        ∀ request ∈ doubleRequests t.blocks (t.blocks (inodeOf t.blocks j)), request.block ≠ 0 := by
  have can : Creatable threeHundredBlocks.totalblocks threeHundredBlocks.blocks newName fullTable :=
    ⟨by decide, by decide +kernel, findSlot_of_unused (j := 0) (by decide) rfl, by decide +kernel⟩
  refine (flatfsCreate_found flatMounted_threeHundredBlocks (by decide) can).mono ?_
  rintro _ t ⟨done, mounted, j, found, used, count⟩
  obtain ⟨ends, nonzero⟩ := (flatfsRemove_iff mounted found used).2
    (.inr (by rw [count]; decide))
  refine ⟨done, ends.mono fun _ _ served => ⟨j, by rw [count]; decide, served, ?_⟩⟩
  exact fun request mem => nonzero request (List.mem_append_left _ mem)

end Buenos.Fs
