/-
# Fs.NewScan -- the directory scans of NewFS

The five operations that look through the directory run up to `NEWFS_MAX_FILES` entries, which is
derived from the largest file, while the block they have read holds 25.  Each scan is described by
the entry at which it stops (`Theory.scan`) and the entries it has looked at; `newfs_scans_exact`
says for each operation when these are entries of the block.
-/
import Buenos.Fs.BlockBitmap
import Buenos.Theory.Scan

namespace Buenos.Fs

open Buenos.Lib Buenos.Theory

set_option autoImplicit false

/-- The entries that fit in a block. -/
def DIRECTORY_ENTRIES : Nat := NEWFS_BLOCK_SIZE / 20

/-- The name of entry `k` is `filename`. -/
def hasName (memory : Block) (filename : Name) (k : Nat) : Bool :=
  stringcmpAt memory (entryNameByte k) filename = 0

def isUsed (memory : Block) (k : Nat) : Bool := memory (entryWord k) ≠ 0

namespace NewFs

/-- With the entries in `entries` looked at, the latest first. -/
def looked (s : NewFs) (entries : List Nat) : NewFs :=
  { s with indexed := entries ++ s.indexed }

theorem touch_apply (i : Nat) (s : NewFs) : touch i s = .returned ((), s.looked [i]) := rfl

theorem looked_looked (s : NewFs) (first second : List Nat) :
    (s.looked first).looked second = s.looked (second ++ first) := by
  simp [looked]

end NewFs

/-! ## The loops -/

section Loops

/-- The entries that a scan from `i` on over `n` entries looks at. -/
def scanned (p : Nat → Bool) (n i : Nat) : List Nat :=
  List.range' i (min (scan p n i + 1) (i + n) - i)

theorem mem_scanned {p : Nat → Bool} {n i j : Nat} :
    j ∈ scanned p n i ↔ i ≤ j ∧ j < i + n ∧ j ≤ scan p n i := by
  have low := le_scan (p := p) n i
  rw [scanned, List.mem_range'_1]
  omega

theorem scanned_hit {p : Nat → Bool} {i : Nat} (n : Nat) (hit : p i = true) :
    scanned p (n + 1) i = [i] := by
  rw [scanned, scan, if_pos hit, Nat.min_eq_left (by omega), Nat.add_sub_cancel_left]
  rfl

theorem scanned_miss {p : Nat → Bool} {i : Nat} (n : Nat) (miss : p i = false) :
    scanned p (n + 1) i = i :: scanned p n (i + 1) := by
  have low := le_scan (p := p) n (i + 1)
  rw [scanned, scan, if_neg (by simp [miss]), scanned]
  obtain ⟨m, count⟩ : ∃ m, min (scan p n (i + 1) + 1) (i + 1 + n) - (i + 1) = m := ⟨_, rfl⟩
  rw [count, show min (scan p n (i + 1) + 1) (i + (n + 1)) - i = m + 1 by omega]
  rfl

theorem scanned_congr {p q : Nat → Bool} {n i : Nat} (same : ∀ k, i ≤ k → p k = q k) :
    scanned p n i = scanned q n i := by
  rw [scanned, scanned, scan_congr same n]

variable (filename : Name)

/-- One round of the loop. -/
theorem newfsFind_succ (n i : Nat) (s : NewFs) :
    newfsFind filename (n + 1) i s =
      if hasName s.memory filename i then .returned (some i, s.looked [i])
      else newfsFind filename n (i + 1) (s.looked [i]) := by
  rw [newfsFind, Prog.bind_of_returned (NewFs.touch_apply i s), Prog.bind_gets_apply]
  by_cases same : stringcmpAt s.memory (entryNameByte i) filename = 0
  · simp [NewFs.looked, hasName, same]
  · simp [NewFs.looked, hasName, same]

theorem newfsFind_eq (n i : Nat) (s : NewFs) :
    newfsFind filename n i s =
      .returned (if scan (hasName s.memory filename) n i < i + n then
          some (scan (hasName s.memory filename) n i) else none,
        s.looked (scanned (hasName s.memory filename) n i).reverse) := by
  induction n generalizing i s with
  | zero => simp [newfsFind, scan, scanned, NewFs.looked]
  | succ n ih =>
      rw [newfsFind_succ, scan]
      by_cases hit : hasName s.memory filename i = true
      · rw [if_pos hit, if_pos hit, scanned_hit n hit, if_pos (by omega)]
        rfl
      · rw [if_neg hit, if_neg hit, scanned_miss n (by simpa using hit), ih,
          NewFs.looked_looked, List.reverse_cons, Nat.add_right_comm, Nat.add_assoc]
        rfl

/-- The last unused of the `n` entries from `i` on, or `index`. -/
def lastUnused (memory : Block) (n i : Nat) (index : Option Nat) : Option Nat :=
  (List.range' i n).foldl (fun index k => if isUsed memory k then index else some k) index

theorem newfsCreateScan_succ (n i : Nat) (index : Option Nat) (s : NewFs) :
    newfsCreateScan filename (n + 1) i index s =
      if hasName s.memory filename i then .returned (none, s.looked [i])
      else newfsCreateScan filename n (i + 1) (if isUsed s.memory i then index else some i)
        (s.looked [i]) := by
  rw [newfsCreateScan, Prog.bind_of_returned (NewFs.touch_apply i s), Prog.bind_gets_apply]
  by_cases same : stringcmpAt s.memory (entryNameByte i) filename = 0
  · simp [NewFs.looked, hasName, same]
  · by_cases unused : s.memory (entryWord i) = 0
    · simp [NewFs.looked, hasName, isUsed, same, unused]
    · simp [NewFs.looked, hasName, isUsed, same]

theorem newfsCreateScan_eq (n i : Nat) (index : Option Nat) (s : NewFs) :
    newfsCreateScan filename n i index s =
      .returned (if scan (hasName s.memory filename) n i < i + n then none
          else some (lastUnused s.memory n i index),
        s.looked (scanned (hasName s.memory filename) n i).reverse) := by
  induction n generalizing i index s with
  | zero => simp [newfsCreateScan, scan, scanned, lastUnused, NewFs.looked]
  | succ n ih =>
      rw [newfsCreateScan_succ, scan]
      by_cases hit : hasName s.memory filename i = true
      · rw [if_pos hit, if_pos hit, scanned_hit n hit, if_pos (by omega)]
        rfl
      · rw [if_neg hit, if_neg hit, scanned_miss n (by simpa using hit), ih,
          NewFs.looked_looked, List.reverse_cons, Nat.add_right_comm, Nat.add_assoc]
        rfl

theorem newfsCount_eq (n i : Nat) (count : Int) (s : NewFs) :
    ∃ total, newfsCount n i count s = .returned (total, s.looked (List.range' i n).reverse) := by
  induction n generalizing i count s with
  | zero => exact ⟨count, rfl⟩
  | succ n ih =>
      obtain ⟨total, rest⟩ := ih (i + 1)
        (if (s.looked [i]).memory (entryWord i) ≠ 0 then count + 1 else count) (s.looked [i])
      refine ⟨total, ?_⟩
      rw [newfsCount, Prog.bind_of_returned (NewFs.touch_apply i s), Prog.bind_gets_apply, rest,
        NewFs.looked_looked, List.range'_succ, List.reverse_cons]

/-- Entry `k` is used, and `idx` used ones are before it from `i` on, with `count` earlier. -/
def isNth (memory : Block) (idx : Int) (i : Nat) (count : Int) (k : Nat) : Bool :=
  isUsed memory k && count + ((List.range' i (k - i)).countP (isUsed memory) : Nat) = idx

/-- Going past an entry counts it if it is used. -/
theorem isNth_succ (memory : Block) (idx : Int) {i k : Nat} (count : Int) (past : i < k) :
    isNth memory idx i count k =
      isNth memory idx (i + 1) (if isUsed memory i then count + 1 else count) k := by
  obtain ⟨m, rfl⟩ := Nat.exists_eq_add_of_lt past
  rw [isNth, isNth, show i + m + 1 - i = m + 1 by omega, show i + m + 1 - (i + 1) = m by omega,
    List.range'_succ, List.countP_cons]
  split
  · congr 2
    push_cast
    simp only [eq_iff_iff]
    constructor <;> intro same <;> omega
  · rfl

theorem newfsNth_succ (idx : Int) (n i : Nat) (count : Int) (s : NewFs) :
    newfsNth idx (n + 1) i count s =
      if isNth s.memory idx i count i then .returned (some i, s.looked [i])
      else newfsNth idx n (i + 1) (if isUsed s.memory i then count + 1 else count)
        (s.looked [i]) := by
  rw [newfsNth, Prog.bind_of_returned (NewFs.touch_apply i s), Prog.bind_gets_apply]
  by_cases unused : s.memory (entryWord i) = 0#32
  · simp [NewFs.looked, isNth, isUsed, unused]
  · by_cases turn : count = idx
    · simp [NewFs.looked, isNth, isUsed, unused, turn]
    · simp [NewFs.looked, isNth, isUsed, unused, turn]

theorem newfsNth_eq (idx : Int) (n i : Nat) (count : Int) (s : NewFs) :
    ∃ found, newfsNth idx n i count s =
      .returned (found, s.looked (scanned (isNth s.memory idx i count) n i).reverse) := by
  induction n generalizing i count s with
  | zero => exact ⟨none, by simp [newfsNth, scanned, scan, NewFs.looked]⟩
  | succ n ih =>
      rw [newfsNth_succ]
      by_cases hit : isNth s.memory idx i count i = true
      · rw [if_pos hit, scanned_hit n hit]
        exact ⟨some i, rfl⟩
      · obtain ⟨found, rest⟩ := ih (i + 1) (if isUsed s.memory i then count + 1 else count)
          (s.looked [i])
        have onward : scanned (isNth s.memory idx i count) n (i + 1) =
            scanned (isNth s.memory idx (i + 1)
              (if isUsed s.memory i then count + 1 else count)) n (i + 1) :=
          scanned_congr fun k past => isNth_succ s.memory idx count past
        refine ⟨found, ?_⟩
        rw [if_neg hit, rest, NewFs.looked_looked, scanned_miss n (by simpa using hit),
          List.reverse_cons, onward]
        rfl

end Loops

/-! ## The entries that are looked at -/

/-- A scan from the first entry stays among the first `m` exactly when it stops there. -/
theorem scanned_within {p : Nat → Bool} {m n : Nat} (less : m < n) :
    (∀ k ∈ scanned p n 0, k < m) ↔ ∃ k < m, p k = true := by
  constructor
  · intro within
    have early : scan p n 0 < m := by
      by_contra late
      exact absurd (within m (mem_scanned.2 ⟨Nat.zero_le m, by omega, by omega⟩)) (lt_irrefl m)
    exact ⟨_, early, scan_found n 0 (by omega)⟩
  · rintro ⟨k, low, hit⟩ j looked
    have stops := scan_le_hit n 0 (Nat.zero_le k) hit
    have := (mem_scanned.1 looked).2.2
    omega

/-- There is an entry whose turn is `idx` among the first `m` exactly when more than `idx` of them
are used. -/
theorem isNth_among (memory : Block) {idx : Int} (nonneg : 0 ≤ idx) (m : Nat) :
    (∃ k < m, isNth memory idx 0 0 k = true) ↔
      idx < ((List.range m).countP (isUsed memory) : Nat) := by
  induction m with
  | zero => simp; omega
  | succ m ih =>
      have split : (∃ k < m + 1, isNth memory idx 0 0 k = true) ↔
          (∃ k < m, isNth memory idx 0 0 k = true) ∨ isNth memory idx 0 0 m = true := by
        constructor
        · rintro ⟨k, low, turn⟩
          by_cases last : k = m
          · exact .inr (last ▸ turn)
          · exact .inl ⟨k, by omega, turn⟩
        · rintro (⟨k, low, turn⟩ | turn)
          · exact ⟨k, by omega, turn⟩
          · exact ⟨m, by omega, turn⟩
      rw [split, ih, List.range_succ, List.countP_append, isNth, Nat.sub_zero,
        ← List.range_eq_range']
      by_cases used : isUsed memory m = true
      · simp only [used, Bool.true_and, decide_eq_true_eq, List.countP_singleton, if_true]
        push_cast
        omega
      · simp [used]

namespace NewFs

/-- Nobody holds the lock, requests are served, and no entry has been looked at yet. -/
structure Idle (s : NewFs) : Prop extends s.Served where
  free : 0 < s.lock
  start : s.indexed = []

/-- With the lock taken. -/
def locked (s : NewFs) : NewFs := { s with lock := s.lock - 1 }

/-- With the lock taken and the directory read. -/
def opened (s : NewFs) : NewFs :=
  (s.locked.didAsk (newfsDirectoryBlock s.totalblocks).toNat).load mdBuffer
    (s.disk.blocks (newfsDirectoryBlock s.totalblocks).toNat)

variable {s : NewFs}

theorem lockP_idle (idle : s.Idle) : lockP s = .returned ((), s.locked) := if_pos idle.free

theorem loadDirectory_idle (idle : s.Idle) :
    newfsLoadDirectory s.locked = .returned (true, s.opened) :=
  readBlock_served (s := s.locked) ⟨idle.answers, idle.onDisk⟩ idle.onDisk mdBuffer

/-- Only entries of the directory block have been looked at. -/
def Within (s : NewFs) : Prop := ∀ k ∈ s.indexed, k < DIRECTORY_ENTRIES

theorem within_looked (idle : s.Idle) {p : Nat → Bool} {t : NewFs}
    (log : t.indexed = (s.opened.looked (scanned p NEWFS_MAX_FILES 0).reverse).indexed) :
    t.Within ↔ ∃ k < DIRECTORY_ENTRIES, p k = true := by
  have none : s.opened.indexed = [] := idle.start
  rw [← scanned_within (show DIRECTORY_ENTRIES < NEWFS_MAX_FILES by decide), Within, log, looked,
    none]
  simp

/-- An operation that looks at the entries of one scan stays among those of the block exactly when
the scan stops there. -/
theorem within_exact {α : Type} (idle : s.Idle) {p : Nat → Bool} {m : Prog NewFs α} {r : α}
    {t : NewFs} (ran : m s = .returned (r, t))
    (log : t.indexed = (s.opened.looked (scanned p NEWFS_MAX_FILES 0).reverse).indexed)
    {Q : α → Prop} (good : scan p NEWFS_MAX_FILES 0 < DIRECTORY_ENTRIES → Q r) :
    (∃ r t, m s = .returned (r, t) ∧ t.Within ∧ Q r) ↔ ∃ k < DIRECTORY_ENTRIES, p k = true := by
  constructor
  · rintro ⟨r', t', ran', within, -⟩
    rw [ran] at ran'
    cases ran'
    exact (within_looked idle log).1 within
  · intro early
    obtain ⟨k, low, hit⟩ := early
    have stops := scan_le_hit NEWFS_MAX_FILES 0 (Nat.zero_le k) hit
    exact ⟨r, t, ran, (within_looked idle log).2 ⟨k, low, hit⟩, good (by omega)⟩

end NewFs

/-! ## The operations -/

/-- The value `newfs_open` should return: the inode of a used entry with the name, or VFS_NOT_FOUND
if there is none. -/
def OpenRight (memory : Block) (filename : Name) (r : Int) : Prop :=
  (∃ k < DIRECTORY_ENTRIES, isUsed memory k = true ∧ hasName memory filename k = true ∧
      r = (memory (entryWord k)).toInt) ∨
    ((∀ k < DIRECTORY_ENTRIES, isUsed memory k = true → hasName memory filename k = false) ∧
      r = VFS_NOT_FOUND)

section Operations

variable {s : NewFs} (idle : s.Idle) (filename : Name)

include idle

theorem newfsOpen_eq :
    newfsOpen filename s =
      .returned (if scan (hasName s.opened.memory filename) NEWFS_MAX_FILES 0 < NEWFS_MAX_FILES then
          (s.opened.memory (entryWord
            (scan (hasName s.opened.memory filename) NEWFS_MAX_FILES 0))).toInt
        else VFS_NOT_FOUND,
        { s.opened.looked (scanned (hasName s.opened.memory filename) NEWFS_MAX_FILES 0).reverse with
          lock := s.opened.lock + 1 }) := by
  rw [newfsOpen, Prog.bind_of_returned (NewFs.lockP_idle idle),
    Prog.bind_of_returned (NewFs.loadDirectory_idle idle), if_pos rfl,
    Prog.bind_of_returned (newfsFind_eq filename NEWFS_MAX_FILES 0 s.opened), Nat.zero_add]
  split
  · rfl
  · rfl

theorem newfsOpen_exact :
    (∃ r t, newfsOpen filename s = .returned (r, t) ∧ t.Within ∧
        OpenRight s.opened.memory filename r) ↔
      ∃ k < DIRECTORY_ENTRIES, hasName s.opened.memory filename k = true ∧
        isUsed s.opened.memory k = true ∧
          ∀ j < k, hasName s.opened.memory filename j = false := by
  have ran := newfsOpen_eq idle filename
  have entries : DIRECTORY_ENTRIES < NEWFS_MAX_FILES := by decide
  obtain ⟨p, named⟩ : ∃ p, p = hasName s.opened.memory filename := ⟨_, rfl⟩
  rw [← named] at ran ⊢
  constructor
  · rintro ⟨r, t, opens, within, right⟩
    rw [ran] at opens
    cases opens
    obtain ⟨k, low, hit⟩ := (NewFs.within_looked idle rfl).1 within
    have early := scan_le_hit NEWFS_MAX_FILES 0 (Nat.zero_le k) hit
    have found := scan_found (p := p) NEWFS_MAX_FILES 0 (by omega)
    refine ⟨scan p NEWFS_MAX_FILES 0, by omega, found, ?_,
      fun j less => scan_before _ 0 j (Nat.zero_le j) less⟩
    rw [if_pos (by omega)] at right
    -- an unused entry with the name makes the operation return 0
    by_contra unused
    have zero : s.opened.memory (entryWord (scan p NEWFS_MAX_FILES 0)) = 0 := by
      simpa [isUsed] using unused
    rw [zero] at right
    rcases right with ⟨j, -, used, -, same⟩ | ⟨-, same⟩
    · have inode : s.opened.memory (entryWord j) = 0 := BitVec.eq_of_toInt_eq same.symm
      simp [isUsed, inode] at used
    · exact absurd same (by decide)
  · rintro ⟨k, low, hit, used, before⟩
    have stops : scan p NEWFS_MAX_FILES 0 = k :=
      scan_first (Nat.zero_le k) (by omega) hit fun j _ less => before j less
    refine ⟨_, _, ran, (NewFs.within_looked idle rfl).2 ⟨k, low, hit⟩, ?_⟩
    rw [stops, if_pos (by omega)]
    exact .inl ⟨k, low, used, by rw [← named]; exact hit, rfl⟩

/-- The search of `newfs_create`, when the file is not too large. -/
theorem newfsCreateSlot_eq {size : CInt} (fits : newfsNumblocks size ≤ NEWFS_MAX_BLOCKS) :
    ∃ slot t, newfsCreateSlot filename size s = .returned (slot, t) ∧
      t.indexed = (s.opened.looked
        (scanned (hasName s.opened.memory filename) NEWFS_MAX_FILES 0).reverse).indexed ∧
      slot = if scan (hasName s.opened.memory filename) NEWFS_MAX_FILES 0 < NEWFS_MAX_FILES then
          .inl VFS_ERROR
        else match lastUnused s.opened.memory NEWFS_MAX_FILES 0 none with
          | some index => .inr index
          | none => .inl VFS_ERROR := by
  have searched := newfsCreateScan_eq filename NEWFS_MAX_FILES 0 none s.opened
  rw [Nat.zero_add] at searched
  rw [newfsCreateSlot, Prog.bind_of_returned (NewFs.lockP_idle idle), if_neg (by omega),
    Prog.bind_of_returned (NewFs.loadDirectory_idle idle), if_pos rfl,
    Prog.bind_of_returned searched]
  split
  · exact ⟨_, _, rfl, rfl, rfl⟩
  · cases lastUnused s.opened.memory NEWFS_MAX_FILES 0 none with
    | some index => exact ⟨_, _, rfl, rfl, rfl⟩
    | none => exact ⟨_, _, rfl, rfl, rfl⟩

theorem newfsCreateSlot_exact (size : CInt) :
    (∃ slot t, newfsCreateSlot filename size s = .returned (slot, t) ∧ t.Within ∧
        ∀ index, slot = .inr index → index < DIRECTORY_ENTRIES) ↔
      NEWFS_MAX_BLOCKS < newfsNumblocks size ∨
        ∃ k < DIRECTORY_ENTRIES, hasName s.opened.memory filename k = true := by
  by_cases large : NEWFS_MAX_BLOCKS < newfsNumblocks size
  · refine iff_of_true ⟨.inl VFS_ERROR, { s.locked with lock := s.locked.lock + 1 }, ?_, ?_, ?_⟩
      (.inl large)
    · rw [newfsCreateSlot, Prog.bind_of_returned (NewFs.lockP_idle idle), if_pos large]
      rfl
    · intro k looked
      rw [show ({ s.locked with lock := s.locked.lock + 1 } : NewFs).indexed = s.indexed from rfl,
        idle.start] at looked
      cases looked
    · intro index same
      cases same
  · have entries : DIRECTORY_ENTRIES < NEWFS_MAX_FILES := by decide
    obtain ⟨slot, t, ran, log, slot_eq⟩ := newfsCreateSlot_eq idle filename (Nat.le_of_not_lt large)
    rw [or_iff_right large]
    refine NewFs.within_exact idle ran log fun early index same => ?_
    rw [slot_eq, if_pos (by omega)] at same
    cases same

theorem newfsRemoveSlot_exact :
    (∃ slot t, newfsRemoveSlot filename s = .returned (slot, t) ∧ t.Within ∧
        ∀ index, slot = .inr index → index < DIRECTORY_ENTRIES) ↔
      ∃ k < DIRECTORY_ENTRIES, hasName s.opened.memory filename k = true := by
  have found := newfsFind_eq filename NEWFS_MAX_FILES 0 s.opened
  rw [Nat.zero_add] at found
  have ran : ∃ slot t, newfsRemoveSlot filename s = .returned (slot, t) ∧
      t.indexed = (s.opened.looked
        (scanned (hasName s.opened.memory filename) NEWFS_MAX_FILES 0).reverse).indexed ∧
      (∀ index, slot = .inr index →
        index = scan (hasName s.opened.memory filename) NEWFS_MAX_FILES 0) := by
    rw [newfsRemoveSlot, Prog.bind_of_returned (NewFs.lockP_idle idle),
      Prog.bind_of_returned (NewFs.loadDirectory_idle idle), if_pos rfl,
      Prog.bind_of_returned found]
    split
    · refine ⟨_, _, rfl, rfl, fun index same => ?_⟩
      exact (Sum.inr.inj same).symm
    · refine ⟨_, _, rfl, rfl, fun index same => ?_⟩
      cases same
  obtain ⟨slot, t, ran, log, place⟩ := ran
  refine NewFs.within_exact idle ran log fun early index same => ?_
  rw [place index same]
  exact early

omit filename

theorem newfsFilecount_exact (dirname : Name) :
    (∃ r t, newfsFilecount dirname s = .returned (r, t) ∧ t.Within) ↔ dirname ≠ [] := by
  by_cases root : dirname = []
  · refine iff_of_false ?_ (not_not.2 root)
    rintro ⟨r, t, ran, within⟩
    subst root
    obtain ⟨total, counted⟩ := newfsCount_eq NEWFS_MAX_FILES 0 0 s.opened
    rw [newfsFilecount, if_neg (by decide), Prog.bind_of_returned (NewFs.lockP_idle idle),
      Prog.bind_of_returned (NewFs.loadDirectory_idle idle), if_pos rfl,
      Prog.bind_of_returned counted] at ran
    cases ran
    have looked : DIRECTORY_ENTRIES ∈ (s.opened.looked
        (List.range' 0 NEWFS_MAX_FILES).reverse).indexed := by
      rw [NewFs.looked]
      exact List.mem_append_left _ (List.mem_reverse.2 (List.mem_range'_1.2 (by decide)))
    exact lt_irrefl _ (within _ looked)
  · have other : stringcmp dirname [] ≠ 0 := fun same => root ((stringcmp_eq_zero _ _).1 same)
    refine iff_of_true ⟨-VFS_NOT_FOUND, s, ?_, ?_⟩ root
    · rw [newfsFilecount, if_pos other]
      rfl
    · intro k looked
      rw [idle.start] at looked
      cases looked

theorem newfsFile_exact (dirname : Name) (idx : CInt) :
    (∃ r t, newfsFile dirname idx s = .returned (r, t) ∧ t.Within) ↔
      dirname ≠ [] ∨ idx.val < 0 ∨
        idx.val < ((List.range DIRECTORY_ENTRIES).countP (isUsed s.opened.memory) : Nat) := by
  by_cases refused : stringcmp dirname [] ≠ 0 ∨ idx.val < 0
  · refine iff_of_true ⟨(VFS_NOT_FOUND, none), s, ?_, ?_⟩ ?_
    · rw [newfsFile, if_pos refused]
      rfl
    · intro k looked
      rw [idle.start] at looked
      cases looked
    · rcases refused with other | negative
      · exact .inl fun root => other ((stringcmp_eq_zero _ _).2 root)
      · exact .inr (.inl negative)
  · have root : dirname = [] := by
      by_contra other
      exact refused (.inl fun same => other ((stringcmp_eq_zero _ _).1 same))
    have nonneg : 0 ≤ idx.val := by
      by_contra negative
      exact refused (.inr (by omega))
    have ran : ∃ r t, newfsFile dirname idx s = .returned (r, t) ∧
        t.indexed = (s.opened.looked
          (scanned (isNth s.opened.memory idx.val 0 0) NEWFS_MAX_FILES 0).reverse).indexed := by
      obtain ⟨found, nth⟩ := newfsNth_eq idx.val NEWFS_MAX_FILES 0 0 s.opened
      rw [newfsFile, if_neg refused, Prog.bind_of_returned (NewFs.lockP_idle idle),
        Prog.bind_of_returned (NewFs.loadDirectory_idle idle), if_pos rfl,
        Prog.bind_of_returned nth]
      cases found with
      | some i => exact ⟨_, _, rfl, rfl⟩
      | none => exact ⟨_, _, rfl, rfl⟩
    obtain ⟨r, t, ran, log⟩ := ran
    have exact := NewFs.within_exact idle ran log (Q := fun _ => True) fun _ => trivial
    simp only [and_true] at exact
    rw [exact, isNth_among _ nonneg]
    simp [root, not_lt.2 nonneg]

end Operations

/-- **When the scans stay in the directory block.**  `newfs_open` looks at its 25 entries only, and
returns what it should, exactly when the first entry with the name is one of them and is used;
`newfs_create` and `newfs_remove` exactly when an entry with the name is one of them, or the file
is too large to be created; `newfs_filecount` only for a directory that does not exist; and
`newfs_file` exactly when the entry it is asked for is one of them, or it refuses to look. -/
theorem newfs_scans_exact (s : NewFs) (idle : s.Idle) (filename dirname : Name) (size idx : CInt) :
    ((∃ r t, newfsOpen filename s = .returned (r, t) ∧ t.Within ∧
          OpenRight s.opened.memory filename r) ↔
        ∃ k < DIRECTORY_ENTRIES, hasName s.opened.memory filename k = true ∧
          isUsed s.opened.memory k = true ∧
            ∀ j < k, hasName s.opened.memory filename j = false) ∧
      ((∃ slot t, newfsCreateSlot filename size s = .returned (slot, t) ∧ t.Within ∧
          ∀ index, slot = .inr index → index < DIRECTORY_ENTRIES) ↔
        NEWFS_MAX_BLOCKS < newfsNumblocks size ∨
          ∃ k < DIRECTORY_ENTRIES, hasName s.opened.memory filename k = true) ∧
      ((∃ slot t, newfsRemoveSlot filename s = .returned (slot, t) ∧ t.Within ∧
          ∀ index, slot = .inr index → index < DIRECTORY_ENTRIES) ↔
        ∃ k < DIRECTORY_ENTRIES, hasName s.opened.memory filename k = true) ∧
      ((∃ r t, newfsFilecount dirname s = .returned (r, t) ∧ t.Within) ↔ dirname ≠ []) ∧
      ((∃ r t, newfsFile dirname idx s = .returned (r, t) ∧ t.Within) ↔
        dirname ≠ [] ∨ idx.val < 0 ∨
          idx.val < ((List.range DIRECTORY_ENTRIES).countP (isUsed s.opened.memory) : Nat)) :=
  ⟨newfsOpen_exact idle filename, newfsCreateSlot_exact idle filename size,
    newfsRemoveSlot_exact idle filename, newfsFilecount_exact idle dirname,
    newfsFile_exact idle dirname idx⟩

/-! ## A blank volume -/

theorem idle_blankNewFs : blankNewFs.Idle :=
  { served_blankNewFs with free := by decide, start := rfl }

theorem opened_blankNewFs : blankNewFs.opened.memory = fun _ => 0 := by
  funext i
  simp [NewFs.opened, NewFs.load, NewFs.didAsk, NewFs.locked, blankNewFs]

/-- On a blank volume the first entry has the empty name, so the search for it stops there; the
count of the root directory goes past the block. -/
theorem newfs_scans_exact_blank :
    (∃ slot t, newfsRemoveSlot [] blankNewFs = .returned (slot, t) ∧ t.Within ∧
        ∀ index, slot = .inr index → index < DIRECTORY_ENTRIES) ∧
      ¬ ∃ r t, newfsFilecount [] blankNewFs = .returned (r, t) ∧ t.Within := by
  have exact := newfs_scans_exact blankNewFs idle_blankNewFs [] [] ⟨0, by decide⟩ ⟨0, by decide⟩
  exact ⟨exact.2.2.1.2 ⟨0, by decide, by decide⟩, fun counts => exact.2.2.2.1.1 counts rfl⟩

/-- Opening a file that is not there looks past the directory block. -/
theorem newfsOpen_beyond :
    ¬ ∃ r t, newfsOpen [⟨0x61#8, by decide⟩] blankNewFs = .returned (r, t) ∧ t.Within ∧
      OpenRight blankNewFs.opened.memory [⟨0x61#8, by decide⟩] r := by
  rw [newfsOpen_exact idle_blankNewFs, opened_blankNewFs]
  rintro ⟨k, -, named, -⟩
  simp [hasName, stringcmpAt] at named

end Buenos.Fs
