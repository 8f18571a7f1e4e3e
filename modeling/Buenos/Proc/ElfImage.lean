/-
# Proc.ElfImage -- the segments of an executable and the pages for them

Two questions about the parser, both answered with Proc.ElfTable.  Does it report the segments
that the file declares?  It reads the table as if its entries were 32 bytes long, whatever
`e_phentsize` says.  Do the segments fit the pages that `process_start` maps for them?  The
page count comes from the memory size, rounded up modulo 2^32, and the number of bytes that are
read from the file size; neither is compared with the other.
-/
import Buenos.Proc.ElfTable
import Buenos.Proc.Pages

namespace Buenos.Proc

open Buenos.Lib Buenos.Fs Buenos.Theory Buenos.Vm

set_option autoImplicit false

/-! ## The declared segments -/

/-- `e_phentsize` -/
def phentsize (content : List Byte) : Nat := (halfAt content 42).toNat

/-- The table that the parser reads. -/
def tableRead (content : List Byte) : List Elf32Phdr :=
  hdrsAt content ELF32_PHDR_SIZE (fileHdr content).phoff.toNat (fileHdr content).phnum.toNat

/-- The table that the file declares. -/
def tableDeclared (content : List Byte) : List Elf32Phdr :=
  hdrsAt content (phentsize content) (fileHdr content).phoff.toNat (fileHdr content).phnum.toNat

/-- The memory size rounded up to the page boundary, in pages, as a number. -/
def pagesNeeded (memsz : BitVec 32) : Nat := (memsz.toNat + 4095) / 4096

/-- What a table says of a segment: the fields of its LOAD header, or zero without one. -/
def Describes (hdrs : List Elf32Phdr) (w : Bool) (segment : Segment) : Prop :=
  match loads w hdrs with
  | [] => segment = .zero
  | h :: _ => segment.location = h.offset ∧ segment.size = h.filesz ∧ segment.vaddr = h.vaddr ∧
      segment.pages.toNat = pagesNeeded h.memsz

/-- A 32-bit big-endian MIPS executable whose table lies in the file. -/
structure WellFormed (content : List Byte) : Prop where
  long : ELF32_EHDR_SIZE ≤ content.length
  magic : (fileHdr content).magic = ELF_MAGIC
  class_ : (fileHdr content).identClass = ELFCLASS32
  data : (fileHdr content).identData = ELFDATA2MSB
  machine : (fileHdr content).machine = EM_MIPS
  version : (fileHdr content).version.toNat = EV_CURRENT
  identVersion : (fileHdr content).identVersion.toNat = EV_CURRENT
  type : (fileHdr content).type = ET_EXEC
  offset : (fileHdr content).phoff.toNat < 2147483648
  entries : ELF32_PHDR_SIZE ≤ phentsize content
  inside : TableInside content (phentsize content) (fileHdr content).phoff.toNat
    (fileHdr content).phnum.toNat

/-- The parser returns; it succeeds exactly on an acceptable table, and with the entry point and
the segments of that table. -/
def ExtractsSegments {σ : Type} (ops : FsOps σ) (file : Int) (content : List Byte) (s : Vfs σ) :
    Prop :=
  (elfParseHeader ops file).Ends s fun found _ =>
    (found.isSome = true ↔ Acceptable (tableDeclared content)) ∧
      ∀ elf ∈ found, elf.entryPoint = (fileHdr content).entry ∧
        ∀ w, Describes (tableDeclared content) w (elf.segment w)

/-- The two readings of the table lead to the same result. -/
structure SameImage (content : List Byte) : Prop where
  acceptable : Acceptable (tableRead content) ↔ Acceptable (tableDeclared content)
  segments : Acceptable (tableRead content) → ∀ w,
    Describes (tableDeclared content) w (segmentIn w (tableRead content) .zero)

section Extract

variable {σ : Type} {ops : FsOps σ} {content : List Byte} {D : σ → Prop} {file : Int}
  {row fs : Nat} {fileid : Int}

theorem WellFormed.tableInside (formed : WellFormed content) :
    TableInside content ELF32_PHDR_SIZE (fileHdr content).phoff.toNat
      (fileHdr content).phnum.toNat := by
  intro i less
  have declared := formed.inside i less
  have stride := Nat.mul_le_mul_left i formed.entries
  omega

theorem WellFormed.accepted_iff (formed : WellFormed content) :
    (fileHdr content).accepted = true ↔ (fileHdr content).phnum ≠ 0 := by
  obtain ⟨-, magic, class_, data, machine, version, identVersion, type, -, -, -⟩ := formed
  simp [Elf32Ehdr.accepted, magic, class_, data, machine, version, identVersion, type]

/-- A table without headers is not acceptable. -/
theorem not_acceptable_of_empty (content : List Byte) (stride : Nat)
    (zero : (fileHdr content).phnum = 0) :
    ¬ Acceptable (hdrsAt content stride (fileHdr content).phoff.toNat
      (fileHdr content).phnum.toNat) := by
  rw [zero]
  rintro ⟨-, -, w, found⟩
  exact found rfl

/-- On a well-formed executable the parser returns what it makes of the table that it reads. -/
theorem elfParseHeader_wellFormed (serves : ServesContent ops fileid content D) {s : Vfs σ}
    (at_ : OpenAt D file row fs fileid 0 s) (formed : WellFormed content) :
    ∃ t, elfParseHeader ops file s =
      .returned (parseTable (tableRead content) (fileHdr content).entry, t) := by
  by_cases empty : (fileHdr content).phnum = 0
  · obtain ⟨t, ran⟩ := elfParseHeader_refused serves at_
      fun both => formed.accepted_iff.1 both.2 empty
    refine ⟨t, ?_⟩
    have none : parseTable (tableRead content) (fileHdr content).entry = none := by
      rw [← Option.not_isSome_iff_eq_none, parseTable_isSome_iff]
      exact not_acceptable_of_empty content _ empty
    rw [ran, none]
  · obtain ⟨t, ran⟩ := elfParseHeader_ran serves at_ formed.long (formed.accepted_iff.2 empty)
      formed.offset
    exact ⟨t, by rw [ran, if_pos formed.tableInside]; rfl⟩

/-- **The parser extracts the declared segments exactly when both readings of the table agree.** -/
theorem extractsSegments_iff (serves : ServesContent ops fileid content D) (s : Vfs σ)
    (at_ : OpenAt D file row fs fileid 0 s) (formed : WellFormed content) :
    ExtractsSegments ops file content s ↔ SameImage content := by
  obtain ⟨t, ran⟩ := elfParseHeader_wellFormed serves at_ formed
  rw [ExtractsSegments, Prog.ends_iff ran, parseTable_isSome_iff]
  constructor
  · rintro ⟨same, described⟩
    refine ⟨same, fun acceptable w => ?_⟩
    obtain ⟨elf, parsed⟩ := Option.isSome_iff_exists.1
      ((parseTable_isSome_iff (fileHdr content).entry).2 acceptable)
    have said := (described elf parsed).2 w
    rwa [(parseTable_some_iff.1 parsed).2.2 w] at said
  · rintro ⟨same, described⟩
    refine ⟨same, fun elf parsed => ?_⟩
    obtain ⟨acceptable, entry, segments⟩ := parseTable_some_iff.1 parsed
    refine ⟨entry, fun w => ?_⟩
    rw [segments]
    exact described acceptable w

/-- The page count of the source is right unless the sum wraps. -/
theorem toNat_pagesOf {memsz : BitVec 32} (small : memsz.toNat ≤ 0xfffff000) :
    (pagesOf memsz).toNat = pagesNeeded memsz := by
  have sum : (memsz + 4096#32 - 1#32).toNat = memsz.toNat + 4095 := by
    rw [BitVec.toNat_sub, BitVec.toNat_add]
    change (4294967296 - 1 + (memsz.toNat + 4096) % 4294967296) % 4294967296 = _
    omega
  rw [pagesOf, BitVec.toNat_udiv, sum]
  rfl

/-- Entries of the usual size, and memory sizes that do not wrap, are enough. -/
theorem sameImage_of_standard (standard : phentsize content = ELF32_PHDR_SIZE)
    (small : ∀ h ∈ tableDeclared content, h.type = PT_LOAD → h.memsz.toNat ≤ 0xfffff000) :
    SameImage content := by
  have same : tableRead content = tableDeclared content := by
    rw [tableRead, tableDeclared, standard]
  refine ⟨by rw [same], fun _ w => ?_⟩
  rw [Describes, segmentIn, same]
  cases found : loads w (tableDeclared content) with
  | nil => rfl
  | cons h rest =>
      have mem : h ∈ loads w (tableDeclared content) := by
        rw [found]
        exact List.mem_cons_self
      obtain ⟨listed, kind⟩ := List.mem_filter.1 mem
      have load : h.type = PT_LOAD := by
        simp only [Bool.and_eq_true, decide_eq_true_eq] at kind
        exact kind.1
      exact ⟨rfl, rfl, rfl, toNat_pagesOf (small h listed load)⟩

end Extract

/-! ## The pages of a segment -/

/-- Every byte that the read of the segment may write lies in a page that `process_start` maps
for the segment. -/
def Segment.ReadsInside (segment : Segment) : Prop :=
  ∀ k < segment.size.toNat, ∃ i ∈ Pages.pageIndices segment.pages,
    (segment.vaddr + BitVec.ofNat 32 k).toNat / PAGE_SIZE =
      (segment.vaddr + BitVec.ofNat 32 (i * PAGE_SIZE)).toNat / PAGE_SIZE

/-- The parser returns, and what it accepts fits the pages that it asks for: the bytes in the
file, the bytes in memory and the places that are read to. -/
def LoadsInside {σ : Type} (ops : FsOps σ) (file : Int) (content : List Byte) (s : Vfs σ) : Prop :=
  (elfParseHeader ops file).Ends s fun found _ => ∀ elf ∈ found, ∀ w,
    (elf.segment w).size.toNat ≤ (elf.segment w).pages.toNat * PAGE_SIZE ∧
    (∀ h ∈ loads w (tableRead content),
      h.memsz.toNat ≤ (elf.segment w).pages.toNat * PAGE_SIZE) ∧
    (elf.segment w).ReadsInside

/-- A LOAD header whose memory size can be rounded up, and holds the bytes of the file from
the segment's place in its first page on. -/
def Elf32Phdr.Roomy (h : Elf32Phdr) : Prop :=
  h.memsz.toNat ≤ 0xfffff000 ∧
    (h.filesz.toNat = 0 ∨
      h.vaddr.toNat % PAGE_SIZE + h.filesz.toNat ≤ pagesNeeded h.memsz * PAGE_SIZE)

/-- An executable, as far as the file header goes: the table starts where an `int` can say, and
if the parser accepts it then its LOAD headers are roomy. -/
def Loadable (content : List Byte) : Prop :=
  ELF32_EHDR_SIZE ≤ content.length → (fileHdr content).accepted = true →
    (fileHdr content).phoff.toNat < 2147483648 ∧
    (TableInside content ELF32_PHDR_SIZE (fileHdr content).phoff.toNat
        (fileHdr content).phnum.toNat →
      Acceptable (tableRead content) →
        ∀ h ∈ tableRead content, h.type = PT_LOAD → h.Roomy)

section Room

/-- The pages of a segment as numbers: the read stays inside exactly when the bytes and the
place in the first page fit. -/
theorem readsInside_iff {segment : Segment} (few : segment.pages.toNat < 0x100000) :
    segment.ReadsInside ↔ segment.size.toNat = 0 ∨
      segment.vaddr.toNat % PAGE_SIZE + segment.size.toNat ≤
        segment.pages.toNat * PAGE_SIZE := by
  have indices : Pages.pageIndices segment.pages = List.range segment.pages.toNat := by
    rw [Pages.pageIndices, BitVec.toInt_eq_toNat_of_lt (by omega), Int.toNat_natCast]
  have size := segment.size.isLt
  have address : ∀ k, (segment.vaddr + BitVec.ofNat 32 k).toNat / 4096 =
      (segment.vaddr.toNat + k) / 4096 % 0x100000 := by
    intro k
    rw [BitVec.toNat_add, BitVec.toNat_ofNat]
    omega
  rw [Segment.ReadsInside, indices, show PAGE_SIZE = 4096 from rfl]
  generalize segment.vaddr.toNat = v at *
  generalize segment.size.toNat = n at *
  generalize segment.pages.toNat = p at *
  constructor
  · intro inside
    by_contra outside
    -- the first byte behind the pages
    obtain ⟨k, less, behind⟩ : ∃ k < n, (v + k) / 4096 = v / 4096 + p := by
      by_cases none : p = 0
      · exact ⟨0, by omega, by omega⟩
      · exact ⟨p * 4096 - v % 4096, by omega, by omega⟩
    obtain ⟨i, mem, same⟩ := inside k less
    have low := List.mem_range.1 mem
    rw [address, address, behind] at same
    omega
  · intro fits k less
    refine ⟨(v % 4096 + k) / 4096, List.mem_range.2 (by omega), ?_⟩
    rw [address, address]
    omega

/-- A header is roomy exactly when its segment fits the pages that the source counts for it. -/
theorem roomy_iff (h : Elf32Phdr) : h.Roomy ↔
    h.segment.size.toNat ≤ h.segment.pages.toNat * PAGE_SIZE ∧
      h.memsz.toNat ≤ h.segment.pages.toNat * PAGE_SIZE ∧ h.segment.ReadsInside := by
  rw [readsInside_iff (pagesOf_lt h.memsz)]
  change h.Roomy ↔ h.filesz.toNat ≤ (pagesOf h.memsz).toNat * 4096 ∧
    h.memsz.toNat ≤ (pagesOf h.memsz).toNat * 4096 ∧ (h.filesz.toNat = 0 ∨
      h.vaddr.toNat % 4096 + h.filesz.toNat ≤ (pagesOf h.memsz).toNat * 4096)
  by_cases small : h.memsz.toNat ≤ 0xfffff000
  · rw [toNat_pagesOf small, Elf32Phdr.Roomy, pagesNeeded, show PAGE_SIZE = 4096 from rfl]
    omega
  · -- fewer than 2^20 pages cannot hold that much
    have few := pagesOf_lt h.memsz
    refine iff_of_false (fun roomy => small roomy.1) ?_
    rintro ⟨-, enough, -⟩
    omega

variable {σ : Type} {ops : FsOps σ} {content : List Byte} {D : σ → Prop} {file : Int}
  {row fs : Nat} {fileid : Int}

/-- On an acceptable table the headers are roomy exactly when the reported segments fit. -/
theorem segments_fit_iff {hdrs : List Elf32Phdr} {elf : ElfInfo} (acceptable : Acceptable hdrs)
    (segments : ∀ w, elf.segment w = segmentIn w hdrs .zero) :
    (∀ w, (elf.segment w).size.toNat ≤ (elf.segment w).pages.toNat * PAGE_SIZE ∧
      (∀ h ∈ loads w hdrs, h.memsz.toNat ≤ (elf.segment w).pages.toNat * PAGE_SIZE) ∧
      (elf.segment w).ReadsInside) ↔ ∀ h ∈ hdrs, h.type = PT_LOAD → h.Roomy := by
  constructor
  · intro fit h listed load
    have mem : h ∈ loads h.writable hdrs := List.mem_filter.2 ⟨listed, by simp [load]⟩
    have here : elf.segment h.writable = h.segment := by
      rw [segments, segmentIn]
      have once := acceptable.once h.writable
      generalize loads h.writable hdrs = found at *
      cases found with
      | nil => exact absurd mem List.not_mem_nil
      | cons first rest =>
          rw [List.length_cons] at once
          have none : rest = [] := List.length_eq_zero_iff.1 (by omega)
          rw [none, List.mem_singleton] at mem
          rw [mem]
    have fits := fit h.writable
    rw [here] at fits
    exact (roomy_iff h).2 ⟨fits.1, fits.2.1 h mem, fits.2.2⟩
  · intro roomy w
    rw [segments, segmentIn]
    have once := acceptable.once w
    cases found : loads w hdrs with
    | nil =>
        exact ⟨Nat.zero_le _, fun h mem => absurd mem List.not_mem_nil,
          fun k less => absurd less (Nat.not_lt_zero k)⟩
    | cons first rest =>
        have mem : first ∈ loads w hdrs := by
          rw [found]
          exact List.mem_cons_self
        obtain ⟨listed, kind⟩ := List.mem_filter.1 mem
        simp only [Bool.and_eq_true, decide_eq_true_eq] at kind
        obtain ⟨size, memory, reads⟩ := (roomy_iff first).1 (roomy first listed kind.1)
        rw [found, List.length_cons] at once
        have none : rest = [] := List.length_eq_zero_iff.1 (by omega)
        refine ⟨size, fun h mem' => ?_, reads⟩
        rw [none, List.mem_singleton] at mem'
        rw [mem']
        exact memory

/-- **What is accepted fits its pages exactly when the file is loadable.** -/
theorem loadsInside_iff (serves : ServesContent ops fileid content D) (s : Vfs σ)
    (at_ : OpenAt D file row fs fileid 0 s) :
    LoadsInside ops file content s ↔ Loadable content := by
  by_cases header : ELF32_EHDR_SIZE ≤ content.length ∧ (fileHdr content).accepted = true
  · obtain ⟨long, accepted⟩ := header
    by_cases low : (fileHdr content).phoff.toNat < 2147483648
    · obtain ⟨t, ran⟩ := elfParseHeader_ran serves at_ long accepted low
      rw [LoadsInside, Prog.ends_iff ran]
      constructor
      · refine fun fit _ _ => ⟨low, fun inside acceptable => ?_⟩
        rw [if_pos inside] at fit
        obtain ⟨elf, parsed⟩ := Option.isSome_iff_exists.1
          ((parseTable_isSome_iff (fileHdr content).entry).2 acceptable)
        exact (segments_fit_iff acceptable (parseTable_some_iff.1 parsed).2.2).1 (fit elf parsed)
      · intro loadable elf member
        split at member
        · rename_i inside
          obtain ⟨acceptable, -, segments⟩ := parseTable_some_iff.1 member
          exact (segments_fit_iff acceptable segments).2
            ((loadable long accepted).2 inside acceptable)
        · cases member
    · have stopped := elfParseHeader_stops serves at_ long accepted low
      refine iff_of_false ?_ fun loadable => low (loadable long accepted).1
      rintro ⟨found, t, returned, -⟩
      rw [stopped] at returned
      cases returned
  · obtain ⟨t, ran⟩ := elfParseHeader_refused serves at_ header
    refine iff_of_true ⟨none, t, ran, fun elf member => by cases member⟩ ?_
    exact fun long accepted => absurd ⟨long, accepted⟩ header

end Room

/-! ## Four executables -/

section Files

open Pages

theorem imageFile_serves {content : List Byte} (short : content.length < 2147483648) :
    ServesContent (imageFile content) 0 content fun _ => True where
  short := short
  read := by
    intro d _ size offset positive
    have read : (imageFile content).read 0 size offset d =
        .returned (((((content.drop offset).take size).length : Int),
          (content.drop offset).take size), d) := rfl
    refine ⟨_, _, d, read, trivial, fun inside => ⟨?_, rfl⟩, fun outside => ?_⟩
    · rw [List.length_take, List.length_drop, Nat.min_eq_left (by omega)]
    · rw [List.length_take, List.length_drop]
      omega

/-- The file is open in row 0. -/
def openImage : Vfs Unit :=
  (vfsInit fun _ => ()).setFile 0 { filesystem := some 0, fileid := 0, seekPosition := 0 }

theorem openImage_at : OpenAt (fun _ => True) 0 0 0 0 0 openImage :=
  ⟨(idle_vfsInit _).setFile _ _, rfl, rfl, rfl, rfl, trivial⟩

/-- A file header with the table at `phoff`, entries of `phentsize` bytes and `phnum` of them. -/
def fileHeader (phoff : List Byte) (phentsize phnum : Byte) : List Byte :=
  [0x7f, 0x45, 0x4c, 0x46, 1, 2, 1, 0, 0, 0, 0, 0, 0, 0, 0, 0,
    0, 2, 0, 8, 0, 0, 0, 1, 0, 0, 0x10, 0] ++ phoff ++
    [0, 0, 0, 0, 0, 0, 0, 0, 0, 52, 0, phentsize, 0, phnum, 0, 0, 0, 0, 0, 0]

/-- A LOAD header: 8192 bytes in the file, and one page in memory. -/
def overfullHeader : List Byte :=
  [0, 0, 0, 1, 0, 0, 0, 84, 0, 0, 0x10, 0, 0, 0, 0, 0, 0, 0, 0x20, 0, 0, 0, 0x10, 0,
    0, 0, 0, 5, 0, 0, 0, 0]

def overfullFile : List Byte := fileHeader [0, 0, 0, 52] 32 1 ++ overfullHeader

/-- A table at 2^31. -/
def distantFile : List Byte := fileHeader [0x80, 0, 0, 0] 32 1

/-- Entries of 40 bytes; the second one is a writable segment. -/
def spacedFile : List Byte := fileHeader [0, 0, 0, 52] 40 2 ++
  [0, 0, 0, 1, 0, 0, 0, 132, 0, 0, 0x10, 0, 0, 0, 0, 0, 0, 0, 0, 4, 0, 0, 0, 4, 0, 0, 0, 5,
    0, 0, 0, 0, 0, 0, 0, 0, 0, 0, 0, 0] ++
  [0, 0, 0, 1, 0, 0, 0, 136, 0, 1, 0, 0, 0, 0, 0, 0, 0, 0, 0, 4, 0, 0, 0, 4, 0, 0, 0, 6,
    0, 0, 0, 0, 0, 0, 0, 0, 0, 0, 0, 0]

set_option maxRecDepth 10000

theorem smallProgram_loadable : Loadable smallProgram := by
  refine fun _ _ => ⟨by decide, fun _ _ h mem _ => ?_⟩
  have roomy : ∀ h ∈ tableRead smallProgram, h.memsz.toNat ≤ 0xfffff000 ∧ (h.filesz.toNat = 0 ∨
      h.vaddr.toNat % PAGE_SIZE + h.filesz.toNat ≤ pagesNeeded h.memsz * PAGE_SIZE) := by decide
  exact roomy h mem

theorem loadsInside_iff_small :
    LoadsInside (imageFile smallProgram) 0 smallProgram openImage :=
  (loadsInside_iff (imageFile_serves (by decide)) openImage openImage_at).2 smallProgram_loadable

/-- A file size above the memory size, and a table behind the positions that an `int` can say. -/
theorem loads_outside :
    ¬ LoadsInside (imageFile overfullFile) 0 overfullFile openImage ∧
      ¬ LoadsInside (imageFile distantFile) 0 distantFile openImage := by
  constructor
  · intro fit
    obtain ⟨t, ran⟩ : ∃ t, elfParseHeader (imageFile overfullFile) 0 openImage =
        .returned (some
          { entryPoint := 0x1000
            roLocation := 84, roSize := 0x2000, roPages := 1, roVaddr := 0x1000
            rwLocation := 0, rwSize := 0, rwPages := 0, rwVaddr := 0 }, t) := ⟨_, rfl⟩
    rw [LoadsInside, Prog.ends_iff ran] at fit
    exact absurd (fit _ rfl false).1 (by decide)
  · rintro ⟨found, t, returned, -⟩
    have stopped : elfParseHeader (imageFile distantFile) 0 openImage = .stopped .assertion := rfl
    rw [stopped] at returned
    cases returned

theorem smallProgram_wellFormed : WellFormed smallProgram :=
  ⟨by decide, by decide, by decide, by decide, by decide, by decide, by decide, by decide,
    by decide, by decide, by decide⟩

/-- Its entries are 32 bytes long, so there is only one reading. -/
theorem smallProgram_sameImage : SameImage smallProgram where
  acceptable := Iff.rfl
  segments := by
    intro _ w
    cases w <;> exact ⟨rfl, rfl, rfl, rfl⟩

theorem extractsSegments_iff_small :
    ExtractsSegments (imageFile smallProgram) 0 smallProgram openImage :=
  (extractsSegments_iff (imageFile_serves (by decide)) openImage openImage_at
    smallProgram_wellFormed).2 smallProgram_sameImage

/-- The second entry is looked for eight bytes early, and taken for one to be ignored. -/
theorem spaced_misread : WellFormed spacedFile ∧
    ¬ ExtractsSegments (imageFile spacedFile) 0 spacedFile openImage := by
  refine ⟨⟨by decide, by decide, by decide, by decide, by decide, by decide, by decide,
    by decide, by decide, by decide, by decide⟩, fun extracts => ?_⟩
  obtain ⟨t, ran⟩ : ∃ t, elfParseHeader (imageFile spacedFile) 0 openImage =
      .returned (some
        { entryPoint := 0x1000
          roLocation := 132, roSize := 4, roPages := 1, roVaddr := 0x1000
          rwLocation := 0, rwSize := 0, rwPages := 0, rwVaddr := 0 }, t) := ⟨_, rfl⟩
  rw [ExtractsSegments, Prog.ends_iff ran] at extracts
  have writable : (0 : BitVec 32) = 136 := ((extracts.2 _ rfl).2 true).1
  exact absurd writable (by decide)

end Files

end Buenos.Proc
