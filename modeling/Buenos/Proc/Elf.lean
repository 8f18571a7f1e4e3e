/-
# Proc.Elf -- the headers of an executable

`elf_parse_header` reads the file header and then the program headers one after the other,
and keeps at most one writable and one other segment.  The headers are packed and
big-endian; of each only the fields that the parser looks at are decoded.
-/
import Buenos.Fs.Vfs
import Buenos.Vm.Pagepool

namespace Buenos.Proc

open Buenos.Lib Buenos.Fs Buenos.Theory Buenos.Vm

set_option autoImplicit false

def ET_EXEC : BitVec 16 := 2
def EM_MIPS : BitVec 16 := 8

def EI_CLASS : Nat := 4
def EI_DATA : Nat := 5
def EI_VERSION : Nat := 6

def ELFCLASS32 : Byte := 1
def ELFDATA2MSB : Byte := 2
def EV_CURRENT : Nat := 1

/-- "\177ELF" -/
def ELF_MAGIC : BitVec 32 := 0x7f454c46

def PT_NULL : BitVec 32 := 0
def PT_LOAD : BitVec 32 := 1
def PT_NOTE : BitVec 32 := 4
def PT_PHDR : BitVec 32 := 6

def PF_W : BitVec 32 := 2

/-- `sizeof(Elf32_Ehdr)` and `sizeof(Elf32_Phdr)` -/
def ELF32_EHDR_SIZE : Nat := 52
def ELF32_PHDR_SIZE : Nat := 32

structure ElfInfo where
  entryPoint : BitVec 32
  roLocation : BitVec 32
  roSize : BitVec 32
  roPages : BitVec 32
  roVaddr : BitVec 32
  rwLocation : BitVec 32
  rwSize : BitVec 32
  rwPages : BitVec 32
  rwVaddr : BitVec 32
  deriving DecidableEq, Repr

/-! ## Fields of packed headers -/

def byteAt (bytes : List Byte) (i : Nat) : Byte := bytes.getD i 0

def halfAt (bytes : List Byte) (i : Nat) : BitVec 16 := byteAt bytes i ++ byteAt bytes (i + 1)

def wordAt (bytes : List Byte) (i : Nat) : BitVec 32 := halfAt bytes i ++ halfAt bytes (i + 2)

structure Elf32Ehdr where
  magic : BitVec 32
  identClass : Byte
  identData : Byte
  identVersion : Byte
  type : BitVec 16
  machine : BitVec 16
  version : BitVec 32
  entry : BitVec 32
  phoff : BitVec 32
  phnum : BitVec 16

def elf32Ehdr (bytes : List Byte) : Elf32Ehdr where
  magic := wordAt bytes 0
  identClass := byteAt bytes EI_CLASS
  identData := byteAt bytes EI_DATA
  identVersion := byteAt bytes EI_VERSION
  type := halfAt bytes 16
  machine := halfAt bytes 18
  version := wordAt bytes 20
  entry := wordAt bytes 24
  phoff := wordAt bytes 28
  phnum := halfAt bytes 44

structure Elf32Phdr where
  type : BitVec 32
  offset : BitVec 32
  vaddr : BitVec 32
  filesz : BitVec 32
  memsz : BitVec 32
  flags : BitVec 32

def elf32Phdr (bytes : List Byte) : Elf32Phdr where
  type := wordAt bytes 0
  offset := wordAt bytes 4
  vaddr := wordAt bytes 8
  filesz := wordAt bytes 16
  memsz := wordAt bytes 20
  flags := wordAt bytes 24

/-! ## The parser -/

/-- The tests on the file header, in order: magic, MIPS 32 bit big-endian, version,
executable, at least one program header. -/
def Elf32Ehdr.accepted (hdr : Elf32Ehdr) : Bool :=
  hdr.magic = ELF_MAGIC &&
    (hdr.identClass = ELFCLASS32 && hdr.identData = ELFDATA2MSB && hdr.machine = EM_MIPS) &&
    (hdr.version.toNat = EV_CURRENT && hdr.identVersion.toNat = EV_CURRENT) &&
    hdr.type = ET_EXEC && hdr.phnum ≠ 0

/-- The bits SEG_RO and SEG_RW of `segs`. -/
structure Segs where
  ro : Bool
  rw : Bool
  deriving DecidableEq, Repr

/-- The memory size rounded up to the page boundary, in pages. -/
def pagesOf (memsz : BitVec 32) : BitVec 32 := (memsz + 4096#32 - 1#32) / 4096#32

/-- The `switch` on the type of a program header. -/
def takeProgramHdr (hdr : Elf32Phdr) (segs : Segs) (elf : ElfInfo) : Option (Segs × ElfInfo) :=
  if hdr.type = PT_NULL ∨ hdr.type = PT_NOTE ∨ hdr.type = PT_PHDR then some (segs, elf)
  else if hdr.type = PT_LOAD then
    if hdr.flags &&& PF_W ≠ 0 then
      if segs.rw then none
      else
        some ({ segs with rw := true },
          { elf with
            rwLocation := hdr.offset, rwSize := hdr.filesz, rwVaddr := hdr.vaddr
            rwPages := pagesOf hdr.memsz })
    else
      if segs.ro then none
      else
        some ({ segs with ro := true },
          { elf with
            roLocation := hdr.offset, roSize := hdr.filesz, roVaddr := hdr.vaddr
            roPages := pagesOf hdr.memsz })
  else none

section Parser

variable {σ : Type} (ops : FsOps σ)

/-- The loop over the program headers, with the number still to come and the position of
the next one.  The declared size of an entry is not looked at. -/
def readProgramHdrs (file : Int) :
    Nat → BitVec 32 → Segs → ElfInfo → Prog (Vfs σ) (Option ElfInfo)
  | 0, _, segs, elf => pure (if segs.ro || segs.rw then some elf else none)
  | n + 1, position, segs, elf => do
      let ret ← vfsRead ops file true ELF32_PHDR_SIZE
      if ret.1 ≠ ELF32_PHDR_SIZE then pure none
      else
        match takeProgramHdr (elf32Phdr ret.2) segs elf with
        | none => pure none
        | some (segs, elf) => do
            let position := position + BitVec.ofNat 32 ELF32_PHDR_SIZE
            let _ ← vfsSeek file position.toInt
            readProgramHdrs file n position segs elf

/-- The information where the source returns 1, and nothing where it returns 0. -/
def elfParseHeader (file : Int) : Prog (Vfs σ) (Option ElfInfo) := do
  let ret ← vfsRead ops file true ELF32_EHDR_SIZE
  if ret.1 ≠ ELF32_EHDR_SIZE then pure none
  else
    let hdr := elf32Ehdr ret.2
    if hdr.accepted then do
      let elf : ElfInfo :=
        { entryPoint := hdr.entry
          roLocation := 0, roSize := 0, roPages := 0, roVaddr := 0
          rwLocation := 0, rwSize := 0, rwPages := 0, rwVaddr := 0 }
      let _ ← vfsSeek file hdr.phoff.toInt
      readProgramHdrs ops file hdr.phnum.toNat hdr.phoff { ro := false, rw := false } elf
    else pure none

end Parser

/-! ## Sizes -/

/-- A segment has fewer than 2^20 pages: its size has 32 bits. -/
def ElfInfo.Fits (elf : ElfInfo) : Prop :=
  elf.roPages.toNat < 0x100000 ∧ elf.rwPages.toNat < 0x100000

theorem pagesOf_lt (memsz : BitVec 32) : (pagesOf memsz).toNat < 0x100000 := by
  have bound := (memsz + 4096#32 - 1#32).isLt
  rw [pagesOf, BitVec.toNat_udiv]
  change (memsz + 4096#32 - 1#32).toNat / 4096 < 0x100000
  omega

theorem takeProgramHdr_fits {hdr : Elf32Phdr} {segs segs' : Segs} {elf elf' : ElfInfo}
    (fits : elf.Fits) (taken : takeProgramHdr hdr segs elf = some (segs', elf')) : elf'.Fits := by
  unfold takeProgramHdr at taken
  split at taken
  · cases taken
    exact fits
  · split at taken
    · split at taken
      · split at taken
        · cases taken
        · cases taken
          exact ⟨fits.1, pagesOf_lt hdr.memsz⟩
      · split at taken
        · cases taken
        · cases taken
          exact ⟨pagesOf_lt hdr.memsz, fits.2⟩
    · cases taken

section Sizes

variable {σ : Type} (ops : FsOps σ)

theorem readProgramHdrs_fits (file : Int) (n : Nat) (position : BitVec 32) (segs : Segs)
    (elf : ElfInfo) (s : Vfs σ) (fits : elf.Fits) :
    (readProgramHdrs ops file n position segs elf).Keeps s fun found _ =>
      ∀ elf' ∈ found, elf'.Fits := by
  induction n generalizing position segs elf s with
  | zero =>
      refine .pure ?_
      intro elf' member
      split at member
      · cases member
        exact fits
      · cases member
  | succ n ih =>
      intro found t ran
      obtain ⟨ret, s₁, -, ran⟩ := Prog.bind_returned.1 ran
      simp only [Prog.ite_apply] at ran
      split at ran
      · cases ran
        intro elf' member
        cases member
      · cases taken : takeProgramHdr (elf32Phdr ret.2) segs elf with
        | none =>
            simp only [taken] at ran
            cases ran
            intro elf' member
            cases member
        | some pair =>
            obtain ⟨segs', elf'⟩ := pair
            simp only [taken] at ran
            obtain ⟨_, s₂, -, ran⟩ := Prog.bind_returned.1 ran
            exact ih _ _ _ s₂ (takeProgramHdr_fits fits taken) _ _ ran

/-- **Accepted images are small.**  No segment that the parser reports has 2^20 pages. -/
theorem elfParseHeader_fits (file : Int) (s : Vfs σ) :
    (elfParseHeader ops file).Keeps s fun found _ => ∀ elf ∈ found, elf.Fits := by
  intro found t ran
  obtain ⟨ret, s₁, -, ran⟩ := Prog.bind_returned.1 ran
  simp only [Prog.ite_apply] at ran
  split at ran
  · cases ran
    intro elf member
    cases member
  · split at ran
    · obtain ⟨_, s₂, -, ran⟩ := Prog.bind_returned.1 ran
      have empty : (0 : BitVec 32).toNat < 0x100000 := by decide
      exact readProgramHdrs_fits ops file _ _ _ _ s₂ ⟨empty, empty⟩ _ _ ran
    · cases ran
      intro elf member
      cases member

end Sizes

end Buenos.Proc
