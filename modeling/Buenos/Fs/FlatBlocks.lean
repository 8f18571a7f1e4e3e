/-
# Fs.FlatBlocks -- looking up the blocks of a FlatFS file

`resolve` is where a logical block of a file lies, worked out from the inode and the
tables on the disk.  The loops of `flatfs_read` and `flatfs_write` work it out from
buffers: the double-indirect block is read in once, and the single-indirect buffer only
when a block is the first of its table.  `Cached` is what the loops keep between two
rounds, and `readLoop_requests` and `writeLoop_requests` say that every block they ask the
disk for is the resolved one.

`flatfs_blockMap` adds what an allocation does to the map.
-/
import Buenos.Fs.FlatGrow
import Buenos.Fs.DiskLog

namespace Buenos.Fs

open Buenos.Lib Buenos.Theory

set_option autoImplicit false

/-- The block of the disk that holds logical block `b` of the file with inode `ino`. -/
def resolve (blocks : Nat → Block) (ino : Block) (b : Nat) : Word :=
  if b < FLATFS_BLOCKS_DIRECT then ino (directWord b)
  else if b < FLATFS_BLOCKS_DIRECT + FLATFS_BLOCKS_SINDIR then
    blocks (ino indirWord).toNat (b - 7)
  else blocks (blocks (ino dblIndirWord).toNat ((b - 135) / 128)).toNat ((b - 135) % 128)

/-- The block map finds the same blocks. -/
theorem resolve_blockAt (blocks : Nat → Block) (ino : Block) (b : Nat) :
    resolve blocks ino b = blockAt blocks ino (blocks (ino dblIndirWord).toNat) b := by
  unfold resolve blockAt tableAt tableOf slotOf FLATFS_BLOCKS_DIRECT FLATFS_BLOCKS_SINDIR
  by_cases direct : b < 7
  · rw [if_pos direct, if_pos direct]
  · rw [if_neg direct, if_neg direct]
    by_cases single : b < 7 + 128
    · rw [if_pos single, if_pos (by omega), Nat.mod_eq_of_lt (by omega)]
    · rw [if_neg single, if_neg (by omega), show (b - 7) / 128 - 1 = (b - 135) / 128 by omega,
        show (b - 7) % 128 = (b - 135) % 128 by omega]

theorem indirPhase_eq {b : Nat} (large : 7 ≤ b) (bound : b ≤ FLATFS_MAX_BLOCKS) :
    indirPhase b = slotOf b := by
  unfold FLATFS_MAX_BLOCKS FLATFS_BLOCKS_DIRECT FLATFS_BLOCKS_SINDIR FLATFS_BLOCKS_DINDIR at bound
  unfold indirPhase toUint32 slotOf FLATFS_BLOCKS_DIRECT FLATFS_BLOCKS_SINDIR
  omega

namespace Volume

variable {s t u v : Flat} {k n b : Nat}

/-- Where the buffers say that logical block `b` lies. -/
def fileBlock (s : Flat) (b : Nat) : Word := blockAt s.blocks (s.buffer .inode) (s.buffer .di) b

theorem fileBlock_mem (less : b < k) : (s.fileBlock b).toNat ∈ s.fileBlocks k :=
  mem_mapped.2 ⟨b, less, rfl⟩

/-- The buffers hold a consistent file of `k` blocks. -/
structure Consistent (s : Flat) (k : Nat) : Prop where
  sound : Sound s k (limitOf k)
  above : Above s k
  data : ∀ b ∈ s.fileBlocks k, 3 ≤ b ∧ b < s.totalblocks ∧ s.marked b = true
  nodup : (s.fileBlocks k).Nodup
  apart : List.Disjoint (s.fileBlocks k) (s.fileTables k)
  bound : k ≤ FLATFS_MAX_BLOCKS

/-- The blocks and the tables of the file are blocks of the volume. -/
structure Located (s : Flat) (k : Nat) : Prop where
  tables : ∀ x ∈ s.fileTables k, x < s.totalblocks
  data : ∀ x ∈ s.fileBlocks k, x < s.totalblocks
  apart : List.Disjoint (s.fileBlocks k) (s.fileTables k)
  bound : k ≤ FLATFS_MAX_BLOCKS

theorem Consistent.located (file : Consistent s k) : Located s k where
  tables := fun x mem => (file.sound.known x mem).2.1
  data := fun x mem => (file.data x mem).2.1
  apart := file.apart
  bound := file.bound

/-- The double-indirect block is in its buffer, if the file has one. -/
def Loaded (s : Flat) (k : Nat) : Prop := 135 < k → s.buffer .di = s.blocks s.double

/-- The lookup from scratch agrees with the buffers. -/
theorem resolve_eq (loaded : Loaded s k) (less : b < k) :
    resolve s.blocks (s.buffer .inode) b = s.fileBlock b := by
  rw [resolve_blockAt, fileBlock]
  by_cases large : 135 < k
  · rw [loaded large]
    rfl
  · unfold blockAt tableAt tableOf
    by_cases direct : b < 7
    · rw [if_pos direct, if_pos direct]
    · rw [if_neg direct, if_neg direct, if_pos (by omega), if_pos (by omega)]

/-! ## What the loops keep -/

/-- The map of a file of `k` blocks is the same in both states. -/
structure Along (s u : Flat) (k : Nat) : Prop where
  same : Volume.Same s u
  inode : u.buffer .inode = s.buffer .inode
  di : u.buffer .di = s.buffer .di
  tables : ∀ x ∈ s.fileTables k, u.blocks x = s.blocks x

theorem Along.refl (s : Flat) (k : Nat) : Along s s k := ⟨.refl s, rfl, rfl, fun _ _ => rfl⟩

theorem Along.fileTables (along : Along s u k) : u.fileTables k = s.fileTables k := by
  unfold Volume.fileTables
  rw [along.inode, along.di]

theorem Along.fileTable (along : Along s u k) (c : Nat) : u.fileTable c = s.fileTable c := by
  unfold Volume.fileTable
  rw [along.inode, along.di]

theorem Along.trans (first : Along s u k) (second : Along u v k) : Along s v k where
  same := first.same.trans second.same
  inode := second.inode.trans first.inode
  di := second.di.trans first.di
  tables := fun x mem =>
    (second.tables x (first.fileTables ▸ mem)).trans (first.tables x mem)

theorem Along.fileBlock (along : Along s u k) (less : b < k) : u.fileBlock b = s.fileBlock b := by
  unfold Volume.fileBlock
  rw [along.inode, along.di]
  exact blockAt_congr (fun _ _ _ => rfl) (fun _ _ => rfl) along.tables b less

/-- Reading into a buffer that is not part of the map. -/
theorem didRead_along (u : Flat) (k x : Nat) {c : FlatBuffer} (notInode : c ≠ .inode)
    (notDi : c ≠ .di) :
    Along u (u.didRead x c) k :=
  ⟨.didRead x c, by rw [didRead_buffer, Function.update_of_ne (Ne.symm notInode)],
    by rw [didRead_buffer, Function.update_of_ne (Ne.symm notDi)], fun _ _ => rfl⟩

/-- The single-indirect buffer holds the table of block `b`. -/
def Holds (s : Flat) (b : Nat) : Prop :=
  7 ≤ b → s.buffer .si = s.blocks (s.fileTable (tableOf b)).toNat

/-- It does so at the start of a round, unless the round reads it in. -/
def Cached (s : Flat) (b : Nat) : Prop := slotOf b ≠ 0 → Holds s b

/-- The next block is in the same table, or the first one of its own. -/
theorem Holds.next (holds : Holds u b) (along : Along u v k) (less : b < k)
    (buffer : v.buffer .si = u.buffer .si) : Cached v (b + 1) := by
  intro inner large
  have large' : 7 ≤ b := by
    by_contra small
    apply inner
    unfold slotOf
    omega
  have sameTable : tableOf (b + 1) = tableOf b := by
    unfold slotOf at inner
    unfold tableOf
    omega
  rw [sameTable, buffer, holds large', along.fileTable, along.tables]
  exact mem_tabled.2 ⟨_, tableOf_lt large' less, rfl⟩

/-! ## One lookup -/

/-- The request for the table of the first block that a loop looks up. -/
def firstTable (s : Flat) (b : Nat) : List Request :=
  if 7 ≤ b then [⟨(s.fileTable (tableOf b)).toNat, .read⟩] else []

/-- The request for the table of a block that is the first one in it. -/
def tableRequest (s : Flat) (b : Nat) : List Request :=
  if 7 ≤ b ∧ slotOf b = 0 then [⟨(s.fileTable (tableOf b)).toNat, .read⟩] else []

theorem flatfsGetblock_direct (small : b < 7) (indirbuf : Nat) :
    flatfsGetblock b indirbuf s = .returned (s.fileBlock b, s) := by
  rw [flatfsGetblock, if_pos (show b < FLATFS_BLOCKS_DIRECT from small)]
  unfold fileBlock blockAt
  rw [if_pos small]
  rfl

/-- The two indirect cases of `flatfs_getblock` are one. -/
theorem flatfsGetblock_indirect (large : 7 ≤ b) (within : tableOf b < 129) (indirbuf : Nat) :
    flatfsGetblock b indirbuf s =
      (do
        let loaded ← if indirbuf = 0 then readBlock (s.fileTable (tableOf b)) .si else pure true
        if loaded then Prog.gets fun s => s.buffer .si (slotOf b)
        else pure (BitVec.ofInt 32 VFS_ERROR) : Prog Flat Word) s := by
  rw [flatfsGetblock, if_neg (show ¬ b < FLATFS_BLOCKS_DIRECT from Nat.not_lt.2 large)]
  unfold fileTable tableAt
  by_cases single : b - FLATFS_BLOCKS_DIRECT < FLATFS_BLOCKS_SINDIR
  · have low : b - 7 < 128 := single
    have slot : b - FLATFS_BLOCKS_DIRECT = slotOf b := (Nat.mod_eq_of_lt low).symm
    have table : tableOf b = 0 := Nat.div_eq_of_lt low
    rw [if_pos single, Prog.bind_gets_apply, table, if_pos rfl, slot]
  · have high : ¬ b - 7 < 128 := single
    have table : (b - FLATFS_BLOCKS_DIRECT - FLATFS_BLOCKS_SINDIR) / FLATFS_BLOCKS_SINDIR =
        tableOf b - 1 := by
      unfold tableOf FLATFS_BLOCKS_DIRECT FLATFS_BLOCKS_SINDIR
      omega
    have slot : (b - FLATFS_BLOCKS_DIRECT - FLATFS_BLOCKS_SINDIR) % FLATFS_BLOCKS_SINDIR =
        slotOf b := by
      unfold slotOf FLATFS_BLOCKS_DIRECT FLATFS_BLOCKS_SINDIR
      omega
    have later : tableOf b ≠ 0 := by
      unfold tableOf
      omega
    have inside : tableOf b - 1 < FLATFS_BLOCKS_SINDIR := by
      unfold FLATFS_BLOCKS_SINDIR
      omega
    rw [if_neg single, if_neg later]
    simp only [table, slot]
    rw [Prog.bind_assert_apply]
    simp only [inside, decide_true, Bool.or_true, if_true, Prog.bind_gets_apply]

section Lookup

variable (known : ∀ x ∈ u.fileTables k, x < u.totalblocks) (bound : k ≤ FLATFS_MAX_BLOCKS)
  (less : b < k)

include known bound less

theorem table_within (large : 7 ≤ b) :
    tableOf b < 129 ∧ (u.fileTable (tableOf b)).toNat < u.totalblocks := by
  refine ⟨?_, known _ (mem_tabled.2 ⟨_, tableOf_lt large less, rfl⟩)⟩
  unfold FLATFS_MAX_BLOCKS FLATFS_BLOCKS_DIRECT FLATFS_BLOCKS_SINDIR FLATFS_BLOCKS_DINDIR at bound
  unfold tableOf
  omega

/-- With the table read in. -/
theorem flatfsGetblock_loads (ready : u.Ready) (large : 7 ≤ b) :
    flatfsGetblock b 0 u =
      .returned (u.fileBlock b, u.didRead (u.fileTable (tableOf b)).toNat .si) := by
  obtain ⟨within, inside⟩ := table_within known bound less large
  rw [flatfsGetblock_indirect large within, if_pos rfl,
    Prog.bind_of_returned (Volume.readBlock_ready ready .si inside)]
  unfold fileBlock blockAt
  simp only [if_neg (Nat.not_lt.2 large), if_true, Prog.gets_apply, didRead_buffer,
    Function.update_self]
  rfl

theorem flatfsGetblock_cached (large : 7 ≤ b) {indirbuf : Nat} (later : indirbuf ≠ 0)
    (holds : Holds u b) : flatfsGetblock b indirbuf u = .returned (u.fileBlock b, u) := by
  obtain ⟨within, -⟩ := table_within known bound less large
  rw [flatfsGetblock_indirect large within, if_neg later, Prog.bind_pure_apply]
  unfold fileBlock blockAt
  simp only [if_neg (Nat.not_lt.2 large), if_true, Prog.gets_apply, holds large]
  rfl

/-- **One round's lookup** gives the block and leaves its table in the buffer. -/
theorem flatfsGetblock_round (ready : u.Ready) (cached : Cached u b) :
    ∃ v, flatfsGetblock b (indirPhase b) u = .returned (u.fileBlock b, v) ∧ Along u v k ∧
      v.blocks = u.blocks ∧ Holds v b ∧
      v.disk.served = (tableRequest u b).reverse ++ u.disk.served := by
  unfold tableRequest
  by_cases large : 7 ≤ b
  · have phase := indirPhase_eq large (Nat.le_trans (Nat.le_of_lt less) bound)
    rw [phase]
    by_cases first : slotOf b = 0
    · have along := didRead_along u k (u.fileTable (tableOf b)).toNat (c := .si) (by decide)
        (by decide)
      rw [first, flatfsGetblock_loads known bound less ready large, if_pos ⟨large, rfl⟩]
      refine ⟨_, rfl, along, rfl, fun _ => ?_, rfl⟩
      rw [along.fileTable, didRead_buffer, Function.update_self]
      rfl
    · rw [flatfsGetblock_cached known bound less large first (cached first),
        if_neg fun h => first h.2]
      exact ⟨u, rfl, .refl u k, rfl, cached first, rfl⟩
  · rw [flatfsGetblock_direct (Nat.not_le.1 large), if_neg fun h => large h.1]
    exact ⟨u, rfl, .refl u k, rfl, fun h => absurd h large, rfl⟩

/-- The lookup before the loop reads in the first table. -/
theorem flatfsGetblock_start (ready : u.Ready) :
    ∃ v, flatfsGetblock b 0 u = .returned (u.fileBlock b, v) ∧ Along u v k ∧
      v.blocks = u.blocks ∧ Holds v b ∧
      v.disk.served = firstTable u b ++ u.disk.served := by
  unfold firstTable
  by_cases large : 7 ≤ b
  · have along := didRead_along u k (u.fileTable (tableOf b)).toNat (c := .si) (by decide)
      (by decide)
    rw [flatfsGetblock_loads known bound less ready large, if_pos large]
    refine ⟨_, rfl, along, rfl, fun _ => ?_, rfl⟩
    rw [along.fileTable, didRead_buffer, Function.update_self]
    rfl
  · rw [flatfsGetblock_direct (Nat.not_le.1 large), if_neg large]
    exact ⟨u, rfl, .refl u k, rfl, fun h => absurd h large, rfl⟩

end Lookup

/-! ## The loops -/

/-- What one round of the read loop asks the disk for. -/
def readRound (s : Flat) (b : Nat) : List Request :=
  tableRequest s b ++ [⟨(resolve s.blocks (s.buffer .inode) b).toNat, .read⟩]

/-- What one round of the write loop asks for: the blocks at the ends are read first. -/
def writeRound (s : Flat) (b1 b2 b : Nat) : List Request :=
  tableRequest s b ++
    if b = b1 ∨ b = b2 then
      [⟨(resolve s.blocks (s.buffer .inode) b).toNat, .read⟩,
        ⟨(resolve s.blocks (s.buffer .inode) b).toNat, .write⟩]
    else [⟨(resolve s.blocks (s.buffer .inode) b).toNat, .write⟩]

/-- The only block that a round writes. -/
theorem writeRound_write {b1 b2 b x : Nat} (mem : ⟨x, .write⟩ ∈ writeRound s b1 b2 b) :
    x = (resolve s.blocks (s.buffer .inode) b).toNat := by
  unfold writeRound tableRequest at mem
  split_ifs at mem <;> simpa using mem

theorem Along.tableRequest (along : Along s u k) (b : Nat) :
    u.tableRequest b = s.tableRequest b := by
  unfold Volume.tableRequest
  rw [along.fileTable]

/-- After a data block was stored from the bitmap buffer, the next block can be looked up. -/
theorem stored_along {b x : Nat} {v w : Flat} (along : Along s v k) (holds : Holds v b)
    (less : b < k) (apart : x ∉ s.fileTables k) (next : Along v w k)
    (buffer' : w.buffer .si = v.buffer .si) :
    Along s (w.didWrite x (w.buffer .bat)) k ∧ Cached (w.didWrite x (w.buffer .bat)) (b + 1) := by
  have stored : Along w (w.didWrite x (w.buffer .bat)) k := by
    refine ⟨.didWrite _ _, rfl, rfl, fun y mem => ?_⟩
    rw [next.fileTables, along.fileTables] at mem
    exact Function.update_of_ne (ne_of_mem_of_not_mem mem apart) _ _
  have after := next.trans stored
  exact ⟨along.trans after, holds.next after less buffer'⟩

/-- A round of the write loop ends by storing the block and goes on with the next one. -/
theorem writeRound_rest {b1 b2 n b x : Nat} {buffer : Nat → Byte} {datasize offset : Int}
    {v w : Flat} (ih : ∀ (b : Nat) (written : Int) (u : Flat), Along s u k → Cached u b →
      b + n ≤ k → ∃ r t, writeLoop b1 b2 buffer datasize offset n b written u =
          .returned (some r, t) ∧ Along s t k ∧
        t.disk.served = ((List.range' b n).flatMap (writeRound s b1 b2)).reverse ++ u.disk.served)
    (along : Along s v k) (holds : Holds v b) (less : b < k) (bound : b + 1 + n ≤ k)
    (apart : x ∉ s.fileTables k) (next : Along v w k) (buffer' : w.buffer .si = v.buffer .si)
    (written : Int) :
    ∃ r t, writeLoop b1 b2 buffer datasize offset n (b + 1) written
          (w.didWrite x (w.buffer .bat)) = .returned (some r, t) ∧ Along s t k ∧
      t.disk.served = ((List.range' (b + 1) n).flatMap (writeRound s b1 b2)).reverse ++
        (⟨x, .write⟩ :: w.disk.served) := by
  obtain ⟨along', cached⟩ := stored_along along holds less apart next buffer'
  exact ih (b + 1) written _ along' cached bound

section Loops

variable (ready : s.Ready) (file : Located s k) (loaded : Loaded s k)

include ready file loaded

/-- One lookup of a loop that began in state `s`. -/
theorem lookup_round (along : Along s u k) (less : b < k) (cached : Cached u b) :
    ∃ v, flatfsGetblock b (indirPhase b) u =
        .returned (resolve s.blocks (s.buffer .inode) b, v) ∧ v.Ready ∧ Along s v k ∧
      v.blocks = u.blocks ∧ Holds v b ∧
      v.disk.served = (tableRequest s b).reverse ++ u.disk.served ∧
      (resolve s.blocks (s.buffer .inode) b).toNat < v.totalblocks ∧
      (resolve s.blocks (s.buffer .inode) b).toNat ∉ s.fileTables k := by
  have known : ∀ x ∈ u.fileTables k, x < u.totalblocks := by
    rw [along.fileTables, along.same.totalblocks]
    exact file.tables
  obtain ⟨v, ran, next, disk, holds, served⟩ :=
    flatfsGetblock_round known file.bound less (ready.same along.same) cached
  have mem := fileBlock_mem (s := s) less
  have along' := along.trans next
  rw [along.fileBlock less, ← resolve_eq loaded less] at ran
  rw [along.tableRequest] at served
  rw [← resolve_eq loaded less] at mem
  refine ⟨v, ran, ready.same along'.same, along', disk, holds, served, ?_, file.apart mem⟩
  rw [along'.same.totalblocks]
  exact file.data _ mem

/-- **The read loop** asks for the resolved blocks, in their order. -/
theorem readLoop_requests (b1 : Nat) (b2 bufsize offset : Int) (n : Nat) :
    ∀ (b : Nat) (read : Int) (out : List Byte) (u : Flat), Along s u k → Cached u b → b + n ≤ k →
      ∃ r t, readLoop b1 b2 bufsize offset n b read out u = .returned (some r, t) ∧
        Along s t k ∧ t.blocks = u.blocks ∧
        t.disk.served = ((List.range' b n).flatMap (readRound s)).reverse ++ u.disk.served := by
  induction n with
  | zero =>
      intro b read out u along _ _
      exact ⟨_, u, rfl, along, rfl, rfl⟩
  | succ n ih =>
      intro b read out u along cached bound
      obtain ⟨v, ran, ready', along', disk, holds, served, inside, -⟩ :=
        lookup_round ready file loaded along (by omega) cached
      have got := Volume.readBlock_ready ready' .bat inside
      generalize place : resolve s.blocks (s.buffer .inode) b = x at ran inside got
      have next := didRead_along v k x.toNat (c := .bat) (by decide) (by decide)
      have cached' : Cached (v.didRead x.toNat .bat) (b + 1) := holds.next (k := k) next (by omega) rfl
      have rest := fun read out => ih (b + 1) read out _ (along'.trans next) cached' (by omega)
      rw [readLoop, Prog.bind_of_returned ran, Prog.bind_of_returned got]
      simp only [if_true, Prog.bind_gets_apply]
      have result : ∀ read out, ∃ r t,
          readLoop b1 b2 bufsize offset n (b + 1) read out (v.didRead x.toNat .bat) =
            .returned (some r, t) ∧ Along s t k ∧ t.blocks = u.blocks ∧
          t.disk.served =
            ((List.range' b (n + 1)).flatMap (readRound s)).reverse ++ u.disk.served := by
        intro read out
        obtain ⟨r, t, ran, along'', disk', served'⟩ := rest read out
        refine ⟨r, t, ran, along'', disk'.trans disk, ?_⟩
        rw [served']
        change _ ++ (⟨x.toNat, .read⟩ :: v.disk.served) = _
        rw [served, List.range'_succ, List.flatMap_cons, readRound, place]
        simp
      split_ifs
      · exact result _ _
      · exact result _ _
      · exact result _ _

/-- **The write loop** asks for the resolved blocks, in their order. -/
theorem writeLoop_requests (b1 b2 : Nat) (buffer : Nat → Byte) (datasize offset : Int) (n : Nat) :
    ∀ (b : Nat) (written : Int) (u : Flat), Along s u k → Cached u b → b + n ≤ k →
      ∃ r t, writeLoop b1 b2 buffer datasize offset n b written u = .returned (some r, t) ∧
        Along s t k ∧
        t.disk.served =
          ((List.range' b n).flatMap (writeRound s b1 b2)).reverse ++ u.disk.served := by
  induction n with
  | zero =>
      intro b written u along _ _
      exact ⟨_, u, rfl, along, rfl⟩
  | succ n ih =>
      intro b written u along cached bound
      obtain ⟨v, ran, ready', along', disk, holds, served, inside, apart⟩ :=
        lookup_round ready file loaded along (by omega) cached
      generalize place : resolve s.blocks (s.buffer .inode) b = x at ran inside apart
      rw [writeLoop, Prog.bind_of_returned ran]
      have readIn := Volume.readBlock_ready ready' .bat inside
      have edited : ∀ content, Along v ((v.didRead x.toNat .bat).setBuffer .bat content) k :=
        fun content => ⟨⟨rfl, rfl, rfl, rfl⟩, by simp, by simp, fun _ _ => rfl⟩
      have direct : ∀ content, Along v (v.setBuffer .bat content) k :=
        fun content => ⟨⟨rfl, rfl, rfl, rfl⟩, by simp, by simp, fun _ _ => rfl⟩
      have ends : ∀ content written, (b = b1 ∨ b = b2) →
          ∃ r t, (do
            let stored ← writeBuffer x .bat
            if stored then writeLoop b1 b2 buffer datasize offset n (b + 1) written else pure none :
              Prog Flat (Option Int)) ((v.didRead x.toNat .bat).setBuffer .bat content) =
            .returned (some r, t) ∧ Along s t k ∧
          t.disk.served =
            ((List.range' b (n + 1)).flatMap (writeRound s b1 b2)).reverse ++ u.disk.served := by
        intro content written atEnd
        obtain ⟨r, t, ran', along'', served'⟩ := writeRound_rest ih along' holds
          (by omega) (by omega) apart (edited content) (by simp) written
        refine ⟨r, t, ?_, along'', ?_⟩
        · rw [Prog.bind_of_returned (Volume.writeBuffer_ready
            (ready'.same (edited content).same) x .bat inside), if_pos rfl]
          exact ran'
        · rw [served']
          change _ ++ (_ :: ⟨x.toNat, .read⟩ :: v.disk.served) = _
          rw [served, List.range'_succ, List.flatMap_cons, writeRound, place, if_pos atEnd]
          simp
      have middle : ∀ content written, ¬ (b = b1 ∨ b = b2) →
          ∃ r t, (do
            let stored ← writeBuffer x .bat
            if stored then writeLoop b1 b2 buffer datasize offset n (b + 1) written else pure none :
              Prog Flat (Option Int)) (v.setBuffer .bat content) =
            .returned (some r, t) ∧ Along s t k ∧
          t.disk.served =
            ((List.range' b (n + 1)).flatMap (writeRound s b1 b2)).reverse ++ u.disk.served := by
        intro content written inner
        obtain ⟨r, t, ran', along'', served'⟩ := writeRound_rest ih along' holds
          (by omega) (by omega) apart (direct content) (by simp) written
        refine ⟨r, t, ?_, along'', ?_⟩
        · rw [Prog.bind_of_returned (Volume.writeBuffer_ready
            (ready'.same (direct content).same) x .bat inside), if_pos rfl]
          exact ran'
        · rw [served']
          change _ ++ (_ :: v.disk.served) = _
          rw [served, List.range'_succ, List.flatMap_cons, writeRound, place, if_neg inner]
          simp
      by_cases first : b = b1
      · rw [if_pos first, Prog.bind_of_returned readIn, if_pos rfl, Prog.bind_modify_apply]
        exact ends _ _ (.inl first)
      · rw [if_neg first]
        by_cases last : b = b2
        · rw [if_pos last, Prog.bind_of_returned readIn, if_pos rfl, Prog.bind_modify_apply]
          exact ends _ _ (.inr last)
        · rw [if_neg last, Prog.bind_modify_apply]
          exact middle _ _ fun either => either.elim first last

end Loops

/-! ## What an allocation does to the map -/

/-- Blocks that were taken from the bitmap can be added to a file. -/
theorem Consistent.add {m : Nat} {data tabs new : List Nat} (file : Consistent s k)
    (took : Took s t new) (nodup : (data ++ tabs).Nodup) (taken : ∀ x ∈ data ++ tabs, x ∈ new)
    (blocks : t.fileBlocks m = s.fileBlocks k ++ data)
    (tables : t.fileTables m = s.fileTables k ++ tabs) (sound : Sound t m (limitOf m))
    (bound : m ≤ FLATFS_MAX_BLOCKS) : Consistent t m := by
  have fresh : ∀ x ∈ data ++ tabs, 3 ≤ x ∧ x < s.totalblocks ∧ t.marked x = true := fun x mem =>
    ⟨fresh_above file.sound took (taken x mem), (took.fresh x (taken x mem)).1,
      (took.marked x).2 (.inr (taken x mem))⟩
  have notNew : ∀ {x : Nat}, s.marked x = true → x ∉ data ∧ x ∉ tabs := fun marked =>
    not_or.1 fun mem => took.not_marked marked (taken _ (List.mem_append.2 mem))
  obtain ⟨dataNodup, tabsNodup, disjoint⟩ := List.nodup_append.1 nodup
  refine
    { sound := sound
      above := ?_
      data := ?_
      nodup := ?_
      apart := ?_
      bound := bound }
  · intro b mem
    rw [tables, List.mem_append] at mem
    rcases mem with old | new
    · exact file.above b old
    · exact (fresh b (List.mem_append_right _ new)).1
  · intro b mem
    rw [blocks, List.mem_append] at mem
    rw [took.same.totalblocks]
    rcases mem with old | new
    · obtain ⟨above, inside, marked⟩ := file.data b old
      exact ⟨above, inside, took.keeps marked⟩
    · exact fresh b (List.mem_append_left _ new)
  · rw [blocks, List.nodup_append]
    refine ⟨file.nodup, dataNodup, ?_⟩
    rintro b old c new rfl
    exact (notNew (file.data b old).2.2).1 new
  · rw [blocks, tables, List.disjoint_append_left, List.disjoint_append_right,
      List.disjoint_append_right]
    refine ⟨⟨file.apart, fun b old new => (notNew (file.data b old).2.2).2 new⟩, ?_, ?_⟩
    · exact fun b new old => (notNew (file.sound.known b old).2.2).1 new
    · exact fun b new tab => disjoint b new b tab rfl

/-- **A file that has grown** is a file: its buffers are consistent again. -/
theorem Extended.consistent {data tabs : List Nat} (file : Consistent s k)
    (extended : Extended s t k n data tabs) (bound : k + n ≤ FLATFS_MAX_BLOCKS) :
    Consistent t (k + n) ∧ Loaded t (k + n) :=
  ⟨file.add extended.took extended.took.nodup (fun _ mem => mem) extended.blocks extended.tables
    extended.sound bound, fun large => (extended.double large).symm⟩

/-- Storing the inode elsewhere makes the map one that the disk has. -/
theorem resolve_stored {x : Nat} (loaded : Loaded s k) (less : b < k)
    (notTable : x ∉ s.fileTables k) (notDouble : 135 < k → x ≠ s.double) :
    resolve (s.didWrite x (s.buffer .inode)).blocks
        ((s.didWrite x (s.buffer .inode)).blocks x) b =
      resolve s.blocks (s.buffer .inode) b := by
  have onDisk : (s.didWrite x (s.buffer .inode)).blocks x = s.buffer .inode := by simp
  have along : Along s (s.didWrite x (s.buffer .inode)) k :=
    ⟨.didWrite _ _, rfl, rfl, fun y mem =>
      Function.update_of_ne (ne_of_mem_of_not_mem mem notTable) _ _⟩
  have loaded' : Loaded (s.didWrite x (s.buffer .inode)) k := by
    intro large
    rw [didWrite_buffer, loaded large]
    exact (Function.update_of_ne (notDouble large).symm _ _).symm
  rw [onDisk, resolve_eq loaded less, ← along.fileBlock less]
  exact resolve_eq loaded' less

/-- The lookups of both loops over blocks `b1`, .., `b2`: the first table is read in, and
then the loops ask the disk for the resolved blocks. -/
structure LoopsResolve (u : Flat) (b1 b2 : Nat) : Prop where
  reads : ∀ bufsize offset : Int,
    (do
      let _ ← flatfsGetblock b1 0
      readLoop b1 b2 bufsize offset (b2 + 1 - b1) b1 0 []).Ends u fun result t =>
        result.isSome ∧
        t.disk.served = ((List.range' b1 (b2 + 1 - b1)).flatMap (readRound u)).reverse ++
          firstTable u b1 ++ u.disk.served
  writes : ∀ (buffer : Nat → Byte) (datasize offset : Int),
    (do
      let _ ← flatfsGetblock b1 0
      writeLoop b1 b2 buffer datasize offset (b2 + 1 - b1) b1 0).Ends u fun result t =>
        result.isSome ∧
        t.disk.served = ((List.range' b1 (b2 + 1 - b1)).flatMap (writeRound u b1 b2)).reverse ++
          firstTable u b1 ++ u.disk.served

/-- **The write loop from its first lookup on** asks for the resolved blocks, and only blocks
of the file change. -/
theorem writeLoop_start {b1 b2 : Nat} (ready : u.Ready) (file : Located u k) (loaded : Loaded u k)
    (ordered : b1 ≤ b2) (inside : b2 < k) (buffer : Nat → Byte) (datasize offset : Int) :
    ∃ v r t, flatfsGetblock b1 0 u = .returned (u.fileBlock b1, v) ∧
      writeLoop b1 b2 buffer datasize offset (b2 + 1 - b1) b1 0 v = .returned (some r, t) ∧
      Along u t k ∧
      t.disk.served = ((List.range' b1 (b2 + 1 - b1)).flatMap (writeRound u b1 b2)).reverse ++
        firstTable u b1 ++ u.disk.served ∧
      ∀ x, x ∉ u.fileBlocks k → t.blocks x = u.blocks x := by
  obtain ⟨v, ran, along, disk, holds, served⟩ :=
    flatfsGetblock_start file.tables file.bound (by omega : b1 < k) ready
  obtain ⟨r, t, looped, along', asked⟩ := writeLoop_requests ready file loaded b1 b2 buffer
    datasize offset (b2 + 1 - b1) b1 0 v along (fun _ => holds) (by omega)
  refine ⟨v, r, t, ran, looped, along', ?_, fun x other => ?_⟩
  · rw [asked, served, List.append_assoc]
  · rw [← disk]
    refine (writeLoop_logs _ _ _ _ _ _ _ _ v _ t looped).kept asked fun mem => other ?_
    obtain ⟨b, range, mem⟩ := List.mem_flatMap.1 (List.mem_reverse.1 mem)
    have less : b < k := by
      have := List.mem_range'_1.1 range
      omega
    obtain rfl := writeRound_write mem
    rw [resolve_eq loaded less]
    exact fileBlock_mem less

theorem loopsResolve {b1 b2 : Nat} (ready : u.Ready) (file : Located u k) (loaded : Loaded u k)
    (ordered : b1 ≤ b2) (inside : b2 < k) : LoopsResolve u b1 b2 := by
  constructor
  · intro bufsize offset
    obtain ⟨v, ran, along, -, holds, served⟩ :=
      flatfsGetblock_start file.tables file.bound (by omega : b1 < k) ready
    obtain ⟨r, t, looped, -, -, asked⟩ := readLoop_requests ready file loaded b1 b2 bufsize offset
      (b2 + 1 - b1) b1 0 [] v along (fun _ => holds) (by omega)
    refine ⟨some r, t, ?_, rfl, ?_⟩
    · rw [Prog.bind_of_returned ran]
      exact looped
    · rw [asked, served, List.append_assoc]
  · intro buffer datasize offset
    obtain ⟨v, r, t, ran, looped, -, asked, -⟩ :=
      writeLoop_start ready file loaded ordered inside buffer datasize offset
    refine ⟨some r, t, ?_, rfl, asked⟩
    rw [Prog.bind_of_returned ran]
    exact looped

/-- What a request for `n` more blocks does to the map of a file of `k` blocks. -/
structure Remapped (s t : Flat) (k n : Nat) (data tabs : List Nat) : Prop where
  old : ∀ b < k, resolve t.blocks (t.buffer .inode) b = resolve s.blocks (s.buffer .inode) b
  new : ∀ i, ∀ less : i < data.length,
    (resolve t.blocks (t.buffer .inode) (k + i)).toNat = data[i]
  count : data.length = n
  tables : t.fileTables (k + n) = s.fileTables k ++ tabs
  distinct : (data ++ tabs).Nodup
  free : ∀ x ∈ data ++ tabs, x < s.totalblocks ∧ s.marked x = false
  apart : ∀ b < k + n, (resolve t.blocks (t.buffer .inode) b).toNat ∉ tabs
  zero : ∀ x ∈ data, t.blocks x = zeroblock
  file : Consistent t (k + n)
  loaded : Loaded t (k + n)

theorem Extended.remapped {data tabs : List Nat} (file : Consistent s k) (loaded : Loaded s k)
    (extended : Extended s t k n data tabs) (bound : k + n ≤ FLATFS_MAX_BLOCKS) :
    Remapped s t k n data tabs := by
  obtain ⟨file', loaded'⟩ := extended.consistent file bound
  have total : (s.fileBlocks k ++ data).length = k + n := by
    rw [← extended.blocks, fileBlocks, mapped_length]
  have place : ∀ b, ∀ listed : b < (s.fileBlocks k ++ data).length,
      (resolve t.blocks (t.buffer .inode) b).toNat = (s.fileBlocks k ++ data)[b] := by
    intro b listed
    rw [resolve_eq loaded' (by omega)]
    simp only [← extended.blocks]
    simp [fileBlocks, mapped, fileBlock]
  have length : (s.fileBlocks k).length = k := mapped_length ..
  refine
    { old := fun b less => ?_
      new := fun i less => ?_
      count := extended.count
      tables := extended.tables
      distinct := extended.took.nodup
      free := extended.took.fresh
      apart := fun b less mem => ?_
      zero := extended.zero
      file := file'
      loaded := loaded' }
  · apply BitVec.eq_of_toNat_eq
    rw [place b (by omega), List.getElem_append_left (by omega), resolve_eq loaded less]
    simp [fileBlocks, mapped, fileBlock]
  · have inside : k + i < k + n := by
      have := extended.count
      omega
    rw [place _ (by omega), List.getElem_append_right (by omega)]
    simp [length]
  · rw [resolve_eq loaded' less] at mem
    refine file'.apart (fileBlock_mem less) ?_
    rw [extended.tables]
    exact List.mem_append_right _ mem

/-- **The block map.**  Growing a file keeps the blocks it has and adds fresh zeroed ones, and
the loops that look blocks up through the buffers find the resolved ones. -/
theorem flatfs_blockMap (ready : s.Ready) (room : 3 ≤ s.totalblocks) (file : Consistent s k)
    (some : 0 < n) (bound : k + n ≤ FLATFS_MAX_BLOCKS) (double : 135 < k + n → DoubleReady s k) :
    (∀ t, flatfsAllocBlocks n k s = .returned (true, t) →
      t.Ready ∧ (∃ data tabs, Remapped s t k n data tabs) ∧
        ∀ x, x ∉ t.fileTables (k + n) → (135 < k + n → x ≠ t.double) → ∀ b < k + n,
          resolve (t.didWrite x (t.buffer .inode)).blocks
              ((t.didWrite x (t.buffer .inode)).blocks x) b =
            resolve t.blocks (t.buffer .inode) b) ∧
      ∀ (u : Flat) (m : Nat), u.Ready → Consistent u m → Loaded u m →
        ∀ b1 b2, b1 ≤ b2 → b2 < m → LoopsResolve u b1 b2 := by
  constructor
  · intro t ran
    have loaded : Loaded s k := by
      intro large
      have content := (double (by omega)).content
      rw [if_neg (by omega)] at content
      exact content.symm
    rcases flatfsAllocBlocks_cases ready room file.sound file.above (by omega) (by omega) double with
      ⟨t', data, tabs, ran', extended⟩ | ⟨t', ran', -⟩
    · rw [ran'] at ran
      cases ran
      have remapped := extended.remapped file loaded bound
      exact ⟨ready.same extended.took.same, ⟨data, tabs, remapped⟩, fun x notTable notDouble b less =>
        resolve_stored remapped.loaded less notTable notDouble⟩
    · rw [ran'] at ran
      cases ran
  · intro u m ready' file' loaded' b1 b2 ordered inside
    exact loopsResolve ready' file'.located loaded' ordered inside

/-- A file of one block, block 4, in the buffers; block 5 is kept for its double-indirect table, and
the blocks from 6 on are free. -/
def fileOfOne : Flat :=
  { (Volume.idle 300 fun _ => zeroblock : Flat) with
    buffer := fun
      | .inode => fun i =>
          if i = 0 then 0x200#32 else if i = 1 then 4#32 else if i = dblIndirWord then 5#32 else 0#32
      | .bat => fun i => if i = 0 then 0x3f#32 else 0#32
      | _ => zeroblock }

theorem consistent_fileOfOne : Consistent fileOfOne 1 where
  sound :=
    { system := by decide
      nodup := by decide
      known := by decide
      rest := fun c _ less => by
        obtain rfl : c = 0 := Nat.lt_one_iff.1 less
        rfl
      slots := fun c less => absurd less (by decide +revert) }
  above := by
    unfold Above
    decide
  data := by decide
  nodup := by decide
  apart := fun b _ mem => by simp [fileTables, tabled, tables] at mem
  bound := by decide

theorem doubleReady_fileOfOne : DoubleReady fileOfOne 1 where
  above := by decide
  inside := by decide
  marked := by decide
  apart := fun mem => by simp [fileTables, tabled, tables] at mem
  content := rfl

/-- It grows to 200 blocks, past the direct ones and the single-indirect table. -/
theorem flatfs_blockMap_fileOfOne :
    ∃ t data tabs, flatfsAllocBlocks 199 1 fileOfOne = .returned (true, t) ∧
      Remapped fileOfOne t 1 199 data tabs ∧ LoopsResolve t 0 199 := by
  have ready : fileOfOne.Ready := ⟨fun _ => rfl, Nat.le_refl 300, by decide⟩
  obtain ⟨grows, loops⟩ := flatfs_blockMap (n := 199) ready (by decide) consistent_fileOfOne
    (by decide) (by decide) fun _ => doubleReady_fileOfOne
  have enough : 201 ≤ fileOfOne.room := by decide +kernel
  have bound : 1 + min 199 (fileOfOne.room + 1) ≤ FLATFS_MAX_BLOCKS := by
    have large : 200 ≤ FLATFS_MAX_BLOCKS := by decide
    omega
  rcases flatfsAllocBlocks_cases (n := 199) ready (by decide) consistent_fileOfOne.sound
    consistent_fileOfOne.above (by decide) bound (fun _ => doubleReady_fileOfOne) with ⟨t, -, -, ran, -⟩ | ⟨t, -, short, -⟩
  · obtain ⟨ready', ⟨data, tabs, remapped⟩, -⟩ := grows t ran
    exact ⟨t, data, tabs, ran, remapped,
      loops t 200 ready' remapped.file remapped.loaded 0 199 (by decide) (by decide)⟩
  · have two : tables (1 + 199) - tables 1 = 2 := rfl
    omega

end Volume

end Buenos.Fs
