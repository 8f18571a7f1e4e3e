/-
# Proc.ElfTable -- the parser of executables as a function of the file's bytes

The driver below the VFS is anything that serves the bytes of a file (`ServesContent`), and
the parser is the only one that uses the file.  A call of `elf_parse_header` on the file is then
a function of its bytes: `elfParseHeader_ran` says what it returns, and
`elfParseHeader_stops` when its first seek fails.

The program headers are taken from a list.  `takeHdrs_some_iff` says which lists are taken
whole, and with what result; it carries the two flags of the loop.
-/
import Buenos.Fs.VfsIdle
import Buenos.Proc.Elf
import Mathlib.Tactic.Common

namespace Buenos.Proc

open Buenos.Lib Buenos.Fs Buenos.Theory Buenos.Vm

set_option autoImplicit false

/-! ## A file that is read -/

section File

variable {σ : Type}

/-- What `read` of a driver answers for the file `fileid`, in the driver states `D`.  Sizes and
positions are `int`s. -/
structure ServesContent (ops : FsOps σ) (fileid : Int) (content : List Byte) (D : σ → Prop) :
    Prop where
  short : content.length < 2147483648
  read : ∀ d, D d → ∀ size offset : Nat, 0 < size → ∃ ret bytes d',
    ops.read fileid size offset d = .returned ((ret, bytes), d') ∧ D d' ∧
      (offset + size ≤ content.length →
        ret = size ∧ bytes = (content.drop offset).take size) ∧
      (content.length < offset + size → ret < size)

/-- The file is open, its seek position is `position`, and nobody else uses the VFS. -/
structure OpenAt (D : σ → Prop) (file : Int) (row fs : Nat) (fileid : Int) (position : Nat)
    (s : Vfs σ) : Prop where
  idle : s.Idle
  usable : s.vfsUsable = true
  opened : openRow s file = some (row, fs)
  fileid : (s.files row).fileid = fileid
  position : (s.files row).seekPosition = position
  driver : D (s.internal fs)

variable {ops : FsOps σ} {content : List Byte} {D : σ → Prop} {file : Int} {row fs : Nat}
  {fileid : Int} {s : Vfs σ} {position : Nat}

/-- Only the seek position of an open row changes. -/
theorem OpenAt.seek (at_ : OpenAt D file row fs fileid position s) (position' : Nat) :
    OpenAt D file row fs fileid position'
      (s.setFile row { s.files row with seekPosition := position' }) := by
  obtain ⟨rfl, inside, used⟩ := openRow_some at_.opened
  have same : openRow (s.setFile row { s.files row with seekPosition := position' }) row =
      some (row, fs) := by
    rw [openRow, if_pos ⟨by omega, by exact_mod_cast inside⟩]
    simp [Vfs.setFile, used]
  exact ⟨at_.idle.setFile _ _, at_.usable, same, by simpa [Vfs.setFile] using at_.fileid,
    by simp [Vfs.setFile], at_.driver⟩

theorem OpenAt.drive (at_ : OpenAt D file row fs fileid position s) {d : σ} (driver : D d) :
    OpenAt D file row fs fileid position (s.setInternal fs d) :=
  ⟨at_.idle.setInternal fs d, at_.usable, at_.opened, at_.fileid, at_.position,
    by simpa [Vfs.setInternal] using driver⟩

theorem vfsSeek_moves (at_ : OpenAt D file row fs fileid position s) (position' : Nat) :
    ∃ t, vfsSeek file position' s = .returned (VFS_OK, t) ∧
      OpenAt D file row fs fileid position' t := by
  refine ⟨_, ?_, at_.seek position'⟩
  rw [vfsSeek_idle at_.idle, if_pos at_.usable, if_pos (by omega), at_.opened]

theorem vfsSeek_negative (at_ : OpenAt D file row fs fileid position s) {position' : Int}
    (negative : position' < 0) : vfsSeek file position' s = .stopped .assertion := by
  rw [vfsSeek_idle at_.idle, if_pos at_.usable, if_neg (by omega)]

/-- A read is one call of the driver. -/
theorem vfsRead_serves (serves : ServesContent ops fileid content D)
    (at_ : OpenAt D file row fs fileid position s) {size : Nat} (positive : 0 < size) :
    ∃ ret bytes d, D d ∧
      vfsRead ops file true size s =
        .returned ((ret, bytes), (s.setInternal fs d).advanced row ret) ∧
      (position + size ≤ content.length →
        ret = size ∧ bytes = (content.drop position).take size) ∧
      (content.length < position + size → ret < size) := by
  obtain ⟨ret, bytes, d, ran, driver, inside, outside⟩ :=
    serves.read (s.internal fs) at_.driver size position positive
  refine ⟨ret, bytes, d, driver, ?_, inside, outside⟩
  have args : (decide (0 ≤ (size : Int)) && true) = true := by simp
  rw [vfsRead_idle at_.idle, if_pos at_.usable, at_.opened]
  simp only [args, if_true, driven, at_.fileid, at_.position, ran]

/-- A read inside the file gets its bytes and moves on. -/
theorem vfsRead_inside (serves : ServesContent ops fileid content D)
    (at_ : OpenAt D file row fs fileid position s) (size : Nat) (positive : 0 < size)
    (inside : position + size ≤ content.length) :
    ∃ t, vfsRead ops file true size s =
        .returned ((size, (content.drop position).take size), t) ∧
      OpenAt D file row fs fileid (position + size) t := by
  obtain ⟨ret, bytes, d, driver, ran, got, -⟩ := vfsRead_serves serves at_ positive
  obtain ⟨rfl, rfl⟩ := got inside
  refine ⟨_, ran, ?_⟩
  have driven := at_.drive driver
  have small : toInt32 (position + size) = ((position + size : Nat) : Int) := by
    have := serves.short
    rw [toInt32, Int.bmod_eq_of_le (by omega) (by omega)]
    omega
  rw [Vfs.advanced, if_pos (by omega), driven.position, small]
  exact driven.seek (position + size)

/-- A read that would pass the end of the file comes back with less. -/
theorem vfsRead_short (serves : ServesContent ops fileid content D)
    (at_ : OpenAt D file row fs fileid position s) (size : Nat) (positive : 0 < size)
    (outside : content.length < position + size) :
    ∃ ret t, vfsRead ops file true size s = .returned (ret, t) ∧ ret.1 ≠ size := by
  obtain ⟨ret, bytes, d, -, ran, -, less⟩ := vfsRead_serves serves at_ positive
  exact ⟨_, _, ran, by have := less outside; omega⟩

end File

/-! ## The program headers as a list -/

/-- What the parser reports of a segment; `writable` says of which one. -/
structure Segment where
  location : BitVec 32
  size : BitVec 32
  pages : BitVec 32
  vaddr : BitVec 32
  deriving DecidableEq, Repr

def ElfInfo.segment (elf : ElfInfo) : Bool → Segment
  | true => ⟨elf.rwLocation, elf.rwSize, elf.rwPages, elf.rwVaddr⟩
  | false => ⟨elf.roLocation, elf.roSize, elf.roPages, elf.roVaddr⟩

theorem ElfInfo.ext_segment {elf elf' : ElfInfo} (entry : elf.entryPoint = elf'.entryPoint)
    (same : ∀ w, elf.segment w = elf'.segment w) : elf = elf' := by
  have ro := same false
  have rw_ := same true
  cases elf
  cases elf'
  simp_all [ElfInfo.segment]

def Segment.zero : Segment := ⟨0, 0, 0, 0⟩

namespace Elf32Phdr

def writable (h : Elf32Phdr) : Bool := h.flags &&& PF_W ≠ 0

def Ignored (h : Elf32Phdr) : Prop :=
  h.type = PT_NULL ∨ h.type = PT_NOTE ∨ h.type = PT_PHDR

instance (h : Elf32Phdr) : Decidable h.Ignored := by
  unfold Ignored
  infer_instance

/-- The segment that a LOAD header describes, with the page count of the source. -/
def segment (h : Elf32Phdr) : Segment := ⟨h.offset, h.filesz, pagesOf h.memsz, h.vaddr⟩

end Elf32Phdr

def Segs.has (segs : Segs) : Bool → Bool
  | true => segs.rw
  | false => segs.ro

/-- The LOAD headers that are writable, or those that are not. -/
def loads (w : Bool) (hdrs : List Elf32Phdr) : List Elf32Phdr :=
  hdrs.filter fun h => h.type = PT_LOAD && h.writable = w

/-- The `switch` in a loop over a list. -/
def takeHdrs : List Elf32Phdr → Segs → ElfInfo → Option (Segs × ElfInfo)
  | [], segs, elf => some (segs, elf)
  | h :: rest, segs, elf => (takeProgramHdr h segs elf).bind fun r => takeHdrs rest r.1 r.2

section Table

variable {h : Elf32Phdr} {hdrs : List Elf32Phdr} {segs segs' : Segs} {elf elf' : ElfInfo}

theorem load_not_ignored (load : h.type = PT_LOAD) : ¬ h.Ignored := by
  rw [Elf32Phdr.Ignored, load]
  decide

theorem takeProgramHdr_ignored (ignored : h.Ignored) :
    takeProgramHdr h segs elf = some (segs, elf) := if_pos ignored

theorem takeProgramHdr_unknown (unknown : ¬ h.Ignored) (load : h.type ≠ PT_LOAD) :
    takeProgramHdr h segs elf = none := (if_neg unknown).trans (if_neg load)

/-- A second segment of one kind is refused. -/
theorem takeProgramHdr_again (load : h.type = PT_LOAD) (had : segs.has h.writable = true) :
    takeProgramHdr h segs elf = none := by
  refine (if_neg (load_not_ignored load)).trans ((if_pos load).trans ?_)
  by_cases w : h.flags &&& PF_W ≠ 0
  · rw [Elf32Phdr.writable, decide_eq_true w] at had
    rw [if_pos w]
    exact if_pos had
  · rw [Elf32Phdr.writable, decide_eq_false w] at had
    rw [if_neg w]
    exact if_pos had

/-- The first one of a kind is taken, and the other kind is left as it is. -/
theorem takeProgramHdr_first (elf : ElfInfo) (load : h.type = PT_LOAD) (had : segs.has h.writable = false) :
    ∃ segs' elf', takeProgramHdr h segs elf = some (segs', elf') ∧
      elf'.entryPoint = elf.entryPoint ∧ segs'.has h.writable = true ∧
      elf'.segment h.writable = h.segment ∧
      ∀ w, w ≠ h.writable → segs'.has w = segs.has w ∧ elf'.segment w = elf.segment w := by
  have start : takeProgramHdr h segs elf = _ :=
    (if_neg (load_not_ignored load)).trans (if_pos load)
  by_cases w : h.flags &&& PF_W ≠ 0
  · have here : h.writable = true := decide_eq_true w
    rw [here] at had ⊢
    refine ⟨_, _, start.trans ((if_pos w).trans (if_neg (ne_true_of_eq_false had))), rfl, rfl,
      rfl, fun w' other => ?_⟩
    rw [eq_false_of_ne_true other]
    exact ⟨rfl, rfl⟩
  · have here : h.writable = false := decide_eq_false w
    rw [here] at had ⊢
    refine ⟨_, _, start.trans ((if_neg w).trans (if_neg (ne_true_of_eq_false had))), rfl, rfl,
      rfl, fun w' other => ?_⟩
    rw [eq_true_of_ne_false other]
    exact ⟨rfl, rfl⟩

theorem loads_cons_other {w : Bool} (other : h.type ≠ PT_LOAD ∨ h.writable ≠ w) :
    loads w (h :: hdrs) = loads w hdrs := by
  rw [loads, List.filter_cons_of_neg]
  · rfl
  · rcases other with type | kind
    · simp [type]
    · simp [kind]

theorem loads_cons_load (load : h.type = PT_LOAD) :
    loads h.writable (h :: hdrs) = h :: loads h.writable hdrs := by
  rw [loads, List.filter_cons_of_pos (by simp [load])]
  rfl

/-- The segment of a kind that a list describes; zero where it has none. -/
def segmentIn (w : Bool) (hdrs : List Elf32Phdr) (otherwise : Segment) : Segment :=
  match loads w hdrs with
  | [] => otherwise
  | h :: _ => h.segment

/-- What the loop has got after a list that it takes. -/
structure Taken (hdrs : List Elf32Phdr) (segs segs' : Segs) (elf elf' : ElfInfo) : Prop where
  known : ∀ h ∈ hdrs, h.Ignored ∨ h.type = PT_LOAD
  once : ∀ w, (loads w hdrs).length + (segs.has w).toNat ≤ 1
  entry : elf'.entryPoint = elf.entryPoint
  has : ∀ w, segs'.has w = (segs.has w || !(loads w hdrs).isEmpty)
  segment : ∀ w, elf'.segment w = segmentIn w hdrs (elf.segment w)

theorem takeHdrs_taken (hdrs : List Elf32Phdr) (segs segs' : Segs) (elf elf' : ElfInfo)
    (took : takeHdrs hdrs segs elf = some (segs', elf')) : Taken hdrs segs segs' elf elf' := by
  induction hdrs generalizing segs elf with
  | nil =>
      cases took
      refine ⟨fun h mem => absurd mem List.not_mem_nil, fun w => ?_, rfl, fun w => ?_, fun w => rfl⟩
      · simpa [loads] using Bool.toNat_le _
      · simp [loads]
  | cons h rest ih =>
      rw [takeHdrs, Option.bind_eq_some_iff] at took
      obtain ⟨⟨segs₁, elf₁⟩, first, rest_⟩ := took
      have later := ih segs₁ elf₁ rest_
      by_cases ignored : h.Ignored
      · rw [takeProgramHdr_ignored ignored] at first
        cases first
        have skip : ∀ w, loads w (h :: rest) = loads w rest := fun w =>
          loads_cons_other (.inl fun load => load_not_ignored load ignored)
        refine ⟨?_, fun w => ?_, later.entry, fun w => ?_, fun w => ?_⟩
        · exact List.forall_mem_cons.2 ⟨.inl ignored, later.known⟩
        · rw [skip]
          exact later.once w
        · rw [skip]
          exact later.has w
        · rw [segmentIn, skip]
          exact later.segment w
      by_cases load : h.type = PT_LOAD
      · cases had : segs.has h.writable with
        | true =>
            rw [takeProgramHdr_again load had] at first
            cases first
        | false =>
            obtain ⟨segs₂, elf₂, took, entry, has, seg, others⟩ :=
              takeProgramHdr_first elf load had
            rw [took] at first
            cases first
            have last := later.once h.writable
            rw [has, Bool.toNat_true] at last
            have none : loads h.writable rest = [] := List.length_eq_zero_iff.1 (by omega)
            refine ⟨?_, fun w => ?_, later.entry.trans entry, fun w => ?_, fun w => ?_⟩
            · exact List.forall_mem_cons.2 ⟨.inr load, later.known⟩
            · by_cases same : w = h.writable
              · subst same
                rw [loads_cons_load load, none, had]
                exact Nat.le_refl 1
              · rw [loads_cons_other (.inr (Ne.symm same)), ← (others w same).1]
                exact later.once w
            · rw [later.has w]
              by_cases same : w = h.writable
              · subst same
                rw [loads_cons_load load, has]
                simp
              · rw [loads_cons_other (.inr (Ne.symm same)), (others w same).1]
            · rw [later.segment w]
              by_cases same : w = h.writable
              · subst same
                rw [segmentIn, segmentIn, loads_cons_load load, none, seg]
              · rw [segmentIn, segmentIn, loads_cons_other (.inr (Ne.symm same)),
                  (others w same).2]
      · rw [takeProgramHdr_unknown ignored load] at first
        cases first

/-- A list is taken when its headers are known and no kind comes twice. -/
theorem takeHdrs_isSome (hdrs : List Elf32Phdr) (segs : Segs) (elf : ElfInfo)
    (known : ∀ h ∈ hdrs, h.Ignored ∨ h.type = PT_LOAD)
    (once : ∀ w, (loads w hdrs).length + (segs.has w).toNat ≤ 1) :
    ∃ r, takeHdrs hdrs segs elf = some r := by
  induction hdrs generalizing segs elf with
  | nil => exact ⟨_, rfl⟩
  | cons h rest ih =>
      have known' := fun h' mem => known h' (List.mem_cons_of_mem h mem)
      rcases known h List.mem_cons_self with ignored | load
      · have skip : ∀ w, loads w (h :: rest) = loads w rest := fun w =>
          loads_cons_other (.inl fun load => load_not_ignored load ignored)
        obtain ⟨r, took⟩ := ih segs elf known' fun w => by rw [← skip]; exact once w
        exact ⟨r, by rw [takeHdrs, takeProgramHdr_ignored ignored]; exact took⟩
      · have here := once h.writable
        rw [loads_cons_load load, List.length_cons] at here
        have had : segs.has h.writable = false := by
          cases had : segs.has h.writable with
          | true =>
              rw [had, Bool.toNat_true] at here
              omega
          | false => rfl
        obtain ⟨segs', elf', took, -, has, -, others⟩ := takeProgramHdr_first elf load had
        obtain ⟨r, took'⟩ := ih segs' elf' known' fun w => by
          by_cases same : w = h.writable
          · subst same
            rw [has, Bool.toNat_true]
            omega
          · rw [(others w same).1, ← loads_cons_other (h := h) (.inr (Ne.symm same))]
            exact once w
        exact ⟨r, by rw [takeHdrs, took]; exact took'⟩

end Table

/-! ## The table in the file -/

/-- The headers of a table are of known types, at most one segment of each kind is among
them, and at least one segment. -/
structure Acceptable (hdrs : List Elf32Phdr) : Prop where
  known : ∀ h ∈ hdrs, h.Ignored ∨ h.type = PT_LOAD
  once : ∀ w, (loads w hdrs).length ≤ 1
  some : ∃ w, loads w hdrs ≠ []

def fileHdr (content : List Byte) : Elf32Ehdr := elf32Ehdr (content.take ELF32_EHDR_SIZE)

def phdrAt (content : List Byte) (position : Nat) : Elf32Phdr :=
  elf32Phdr ((content.drop position).take ELF32_PHDR_SIZE)

/-- `n` program headers, the first at `position` and the next ones `stride` bytes apart. -/
def hdrsAt (content : List Byte) (stride position n : Nat) : List Elf32Phdr :=
  (List.range n).map fun i => phdrAt content (position + i * stride)

/-- All of them lie in the file. -/
def TableInside (content : List Byte) (stride position n : Nat) : Prop :=
  ∀ i < n, position + i * stride + ELF32_PHDR_SIZE ≤ content.length

instance (content : List Byte) (stride position n : Nat) :
    Decidable (TableInside content stride position n) := by
  unfold TableInside
  infer_instance

/-- The structure that the parser fills in, zeroed. -/
def blankElf (entry : BitVec 32) : ElfInfo where
  entryPoint := entry
  roLocation := 0
  roSize := 0
  roPages := 0
  roVaddr := 0
  rwLocation := 0
  rwSize := 0
  rwPages := 0
  rwVaddr := 0

def noSegs : Segs := { ro := false, rw := false }

/-- The end of the parser. -/
def someSegment (r : Segs × ElfInfo) : Option ElfInfo :=
  if r.1.ro || r.1.rw then some r.2 else none

/-- What the parser makes of a table. -/
def parseTable (hdrs : List Elf32Phdr) (entry : BitVec 32) : Option ElfInfo :=
  (takeHdrs hdrs noSegs (blankElf entry)).bind someSegment

section Parse

variable {content : List Byte} {hdrs : List Elf32Phdr} {entry : BitVec 32} {elf : ElfInfo}

theorem hdrsAt_succ (content : List Byte) (stride position n : Nat) :
    hdrsAt content stride position (n + 1) =
      phdrAt content position :: hdrsAt content stride (position + stride) n := by
  have shift : ∀ i, position + (i + 1) * stride = position + stride + i * stride := by
    intro i
    rw [Nat.succ_mul]
    omega
  simp only [hdrsAt, List.range_succ_eq_map, List.map_cons, List.map_map, Nat.zero_mul,
    Nat.add_zero, Function.comp_def, Nat.succ_eq_add_one, shift]

theorem tableInside_succ (content : List Byte) (stride position n : Nat) :
    TableInside content stride position (n + 1) ↔
      position + ELF32_PHDR_SIZE ≤ content.length ∧
        TableInside content stride (position + stride) n := by
  constructor
  · intro inside
    refine ⟨by simpa using inside 0 (Nat.succ_pos n), fun i less => ?_⟩
    have later := inside (i + 1) (Nat.succ_lt_succ less)
    rw [Nat.succ_mul] at later
    omega
  · rintro ⟨first, rest⟩ i less
    cases i with
    | zero => simpa using first
    | succ i =>
        have later := rest i (Nat.lt_of_succ_lt_succ less)
        rw [Nat.succ_mul]
        omega

/-- **The parser accepts acceptable tables,** and reports what their LOAD headers say. -/
theorem parseTable_some_iff : parseTable hdrs entry = some elf ↔
    Acceptable hdrs ∧ elf.entryPoint = entry ∧
      ∀ w, elf.segment w = segmentIn w hdrs .zero := by
  have noSegs_has : ∀ w, noSegs.has w = false := by decide
  have blank : ∀ w, (blankElf entry).segment w = .zero := by
    intro w
    cases w <;> rfl
  constructor
  · intro parsed
    rw [parseTable, Option.bind_eq_some_iff] at parsed
    obtain ⟨⟨segs, elf'⟩, took, ended⟩ := parsed
    have taken := takeHdrs_taken hdrs noSegs segs _ elf' took
    rw [someSegment] at ended
    split at ended
    · rename_i any
      cases ended
      refine ⟨⟨taken.known, fun w => ?_, ?_⟩, taken.entry, fun w => ?_⟩
      · have once := taken.once w
        rwa [noSegs_has, Bool.toNat_false, Nat.add_zero] at once
      · have found : ∃ w, segs.has w = true := by
          rcases Bool.or_eq_true _ _ |>.mp any with ro | rw_
          · exact ⟨false, ro⟩
          · exact ⟨true, rw_⟩
        obtain ⟨w, has⟩ := found
        refine ⟨w, fun none => ?_⟩
        rw [taken.has, noSegs_has, none] at has
        cases has
      · rw [taken.segment, blank]
    · cases ended
  · rintro ⟨acceptable, entry_, segments⟩
    obtain ⟨⟨segs, elf'⟩, took⟩ := takeHdrs_isSome hdrs noSegs (blankElf entry) acceptable.known
      fun w => by
        rw [noSegs_has, Bool.toNat_false, Nat.add_zero]
        exact acceptable.once w
    have taken := takeHdrs_taken hdrs noSegs segs _ elf' took
    obtain ⟨w, found⟩ := acceptable.some
    have has : segs.has w = true := by
      rw [taken.has]
      simp [found]
    have any : (segs.ro || segs.rw) = true := by
      cases w
      · exact Bool.or_eq_true _ _ |>.mpr (.inl has)
      · exact Bool.or_eq_true _ _ |>.mpr (.inr has)
    have same : elf' = elf := by
      refine ElfInfo.ext_segment (taken.entry.trans entry_.symm) fun w => ?_
      rw [taken.segment, segments, blank]
    rw [parseTable, took, ← same]
    exact if_pos any

theorem parseTable_isSome_iff (entry : BitVec 32) : (parseTable hdrs entry).isSome = true ↔ Acceptable hdrs := by
  rw [Option.isSome_iff_exists]
  constructor
  · rintro ⟨elf, parsed⟩
    exact (parseTable_some_iff.1 parsed).1
  · intro acceptable
    let ro := segmentIn false hdrs .zero
    let rw_ := segmentIn true hdrs .zero
    refine ⟨⟨entry, ro.location, ro.size, ro.pages, ro.vaddr, rw_.location, rw_.size, rw_.pages,
      rw_.vaddr⟩, parseTable_some_iff.2 ⟨acceptable, rfl, fun w => ?_⟩⟩
    cases w <;> rfl

end Parse

/-! ## The run -/

section Run

variable {σ : Type} {ops : FsOps σ} {content : List Byte} {D : σ → Prop} {file : Int}
  {row fs : Nat} {fileid : Int}

/-- The loop takes the headers that lie 32 bytes apart. -/
theorem readProgramHdrs_ran (serves : ServesContent ops fileid content D) (n : Nat)
    (position : BitVec 32) (segs : Segs) (elf : ElfInfo) (s : Vfs σ)
    (low : position.toNat < 2147483648)
    (at_ : OpenAt D file row fs fileid position.toNat s) :
    ∃ t, readProgramHdrs ops file n position segs elf s = .returned
      (if TableInside content ELF32_PHDR_SIZE position.toNat n then
          (takeHdrs (hdrsAt content ELF32_PHDR_SIZE position.toNat n) segs elf).bind someSegment
        else none, t) := by
  induction n generalizing position segs elf s with
  | zero =>
      have inside : TableInside content ELF32_PHDR_SIZE position.toNat 0 :=
        fun i less => absurd less (Nat.not_lt_zero i)
      exact ⟨s, by rw [readProgramHdrs, if_pos inside]; rfl⟩
  | succ n ih =>
      rw [readProgramHdrs]
      by_cases first : position.toNat + ELF32_PHDR_SIZE ≤ content.length
      · obtain ⟨t, ran, moved⟩ := vfsRead_inside serves at_ ELF32_PHDR_SIZE (by decide) first
        rw [Prog.bind_of_returned ran, if_neg (not_not_intro rfl), hdrsAt_succ]
        cases took : takeProgramHdr (phdrAt content position.toNat) segs elf with
        | none =>
            rw [phdrAt] at took
            refine ⟨t, ?_⟩
            simp only [took]
            rw [takeHdrs, phdrAt, took]
            simp
        | some r =>
            rw [phdrAt] at took
            simp only [took]
            have step : (position + BitVec.ofNat 32 ELF32_PHDR_SIZE).toNat =
                position.toNat + ELF32_PHDR_SIZE := by
              have size : (BitVec.ofNat 32 ELF32_PHDR_SIZE).toNat = 32 := rfl
              have := serves.short
              change position.toNat + 32 ≤ content.length at first
              rw [BitVec.toNat_add, size]
              change _ = position.toNat + 32
              omega
            have low' : (position + BitVec.ofNat 32 ELF32_PHDR_SIZE).toNat < 2147483648 := by
              rw [step]
              have := serves.short
              omega
            obtain ⟨t', sought, at'⟩ := vfsSeek_moves moved
              (position + BitVec.ofNat 32 ELF32_PHDR_SIZE).toNat
            rw [← BitVec.toInt_eq_toNat_of_lt (by omega)] at sought
            obtain ⟨u, ran'⟩ := ih _ r.1 r.2 t' low' at'
            refine ⟨u, ?_⟩
            rw [Prog.bind_of_returned sought, ran', step, takeHdrs, phdrAt, took]
            simp only [tableInside_succ, first, true_and, Option.bind_some]
      · obtain ⟨ret, t, ran, short⟩ := vfsRead_short serves at_ ELF32_PHDR_SIZE
          (by decide) (by omega)
        refine ⟨t, ?_⟩
        rw [Prog.bind_of_returned ran, if_pos short,
          if_neg fun inside => first ((tableInside_succ _ _ _ _).1 inside).1]
        rfl

/-- A file without an acceptable file header is refused. -/
theorem elfParseHeader_refused (serves : ServesContent ops fileid content D) {s : Vfs σ}
    (at_ : OpenAt D file row fs fileid 0 s)
    (bad : ¬ (ELF32_EHDR_SIZE ≤ content.length ∧ (fileHdr content).accepted = true)) :
    ∃ t, elfParseHeader ops file s = .returned (none, t) := by
  rw [elfParseHeader]
  by_cases long : ELF32_EHDR_SIZE ≤ content.length
  · obtain ⟨t, ran, -⟩ := vfsRead_inside serves at_ ELF32_EHDR_SIZE (by decide)
      (by rwa [Nat.zero_add])
    have refused : ¬ (elf32Ehdr ((content.drop 0).take ELF32_EHDR_SIZE)).accepted = true :=
      fun accepted => bad ⟨long, accepted⟩
    refine ⟨t, ?_⟩
    rw [Prog.bind_of_returned ran, if_neg (not_not_intro rfl)]
    exact congrFun (if_neg refused) t
  · obtain ⟨ret, t, ran, short⟩ := vfsRead_short serves at_ ELF32_EHDR_SIZE
      (by decide) (by omega)
    refine ⟨t, ?_⟩
    rw [Prog.bind_of_returned ran, if_pos short]
    rfl

/-- The start of the parser, up to its first seek. -/
theorem elfParseHeader_start (serves : ServesContent ops fileid content D) {s : Vfs σ}
    (at_ : OpenAt D file row fs fileid 0 s) (long : ELF32_EHDR_SIZE ≤ content.length)
    (accepted : (fileHdr content).accepted = true) :
    ∃ t, OpenAt D file row fs fileid ELF32_EHDR_SIZE t ∧
      elfParseHeader ops file s =
        (vfsSeek file (fileHdr content).phoff.toInt >>= fun _ =>
          readProgramHdrs ops file (fileHdr content).phnum.toNat (fileHdr content).phoff noSegs
            (blankElf (fileHdr content).entry)) t := by
  obtain ⟨t, ran, moved⟩ := vfsRead_inside serves at_ ELF32_EHDR_SIZE (by decide)
    (by rwa [Nat.zero_add])
  refine ⟨t, by rwa [Nat.zero_add] at moved, ?_⟩
  rw [elfParseHeader, Prog.bind_of_returned ran, if_neg (not_not_intro rfl)]
  exact congrFun (if_pos accepted) t

/-- An offset of the table that is not an `int` fails the assertion of `vfs_seek`. -/
theorem elfParseHeader_stops (serves : ServesContent ops fileid content D) {s : Vfs σ}
    (at_ : OpenAt D file row fs fileid 0 s) (long : ELF32_EHDR_SIZE ≤ content.length)
    (accepted : (fileHdr content).accepted = true)
    (high : ¬ (fileHdr content).phoff.toNat < 2147483648) :
    elfParseHeader ops file s = .stopped .assertion := by
  obtain ⟨t, moved, start⟩ := elfParseHeader_start serves at_ long accepted
  have negative : (fileHdr content).phoff.toInt < 0 := by
    rw [BitVec.toInt_eq_toNat_cond, if_neg (by omega)]
    have := (fileHdr content).phoff.isLt
    omega
  rw [start]
  exact Prog.bind_of_stopped (vfsSeek_negative moved negative)

/-- **The parser reads one table,** with its entries 32 bytes apart. -/
theorem elfParseHeader_ran (serves : ServesContent ops fileid content D) {s : Vfs σ}
    (at_ : OpenAt D file row fs fileid 0 s) (long : ELF32_EHDR_SIZE ≤ content.length)
    (accepted : (fileHdr content).accepted = true)
    (low : (fileHdr content).phoff.toNat < 2147483648) :
    ∃ t, elfParseHeader ops file s = .returned
      (if TableInside content ELF32_PHDR_SIZE (fileHdr content).phoff.toNat
          (fileHdr content).phnum.toNat then
        parseTable (hdrsAt content ELF32_PHDR_SIZE (fileHdr content).phoff.toNat
          (fileHdr content).phnum.toNat) (fileHdr content).entry
      else none, t) := by
  obtain ⟨t, moved, start⟩ := elfParseHeader_start serves at_ long accepted
  obtain ⟨u, sought, at'⟩ := vfsSeek_moves moved (fileHdr content).phoff.toNat
  rw [← BitVec.toInt_eq_toNat_of_lt (by omega)] at sought
  obtain ⟨v, ran⟩ := readProgramHdrs_ran serves (fileHdr content).phnum.toNat
    (fileHdr content).phoff noSegs (blankElf (fileHdr content).entry) u low at'
  exact ⟨v, by rw [start, Prog.bind_of_returned sought, ran]; rfl⟩

end Run

end Buenos.Proc
