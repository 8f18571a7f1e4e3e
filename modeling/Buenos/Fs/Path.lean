/-
# Fs.Path -- which pathnames are parsed

A pathname is `[volume]filename`, or a file name alone, and both names have at most
VFS_NAME_LENGTH - 1 characters (`Spells`).  `parsePathname` is `vfs_parse_pathname` with
the bytes that it writes to its two buffers; the parser that the VFS model uses is what
it leaves there (`vfsParsePathname_eq`).

The first loop gives up after 15 characters without having looked for the bracket that
may follow, so the longest volume name that can be mounted can not be named in a path:
`parsePathname_right_iff`.
-/
import Buenos.Fs.Directory

namespace Buenos.Fs

open Buenos.Lib

set_option autoImplicit false

/-! ## The two loops -/

/-- The first loop, `n` rounds to go: what is left of the pathname when the bracket comes
in time, and the bytes stored. -/
def copyVolume : Nat → Name → Option Name × List Byte
  | 0, _ => (none, [])
  | _ + 1, [] => (none, [])
  | n + 1, c :: rest =>
      if c = rightBracket then (some rest, [])
      else ((copyVolume n rest).1, c.val :: (copyVolume n rest).2)

/-- The second loop: whether the terminator was copied, and the bytes stored. -/
def copyFilename : Nat → Name → Bool × List Byte
  | 0, _ => (false, [])
  | _ + 1, [] => (true, [0])
  | n + 1, c :: rest => ((copyFilename n rest).1, c.val :: (copyFilename n rest).2)

/-- The result, and what was written to each buffer from its start on. -/
structure Parsed where
  result : Int
  volumebuf : List Byte
  filenamebuf : List Byte

/-- From the terminator of the volume name on. -/
def parseRest (volumebuf : List Byte) (rest : Name) : Parsed where
  result := if (copyFilename VFS_NAME_LENGTH rest).1 then VFS_OK else VFS_ERROR
  volumebuf := volumebuf ++ [0]
  filenamebuf := (copyFilename VFS_NAME_LENGTH rest).2

def parsePathname : Name → Parsed
  | [] => parseRest [] []
  | c :: rest =>
      if c = leftBracket then
        (copyVolume (VFS_NAME_LENGTH - 1) rest).1.elim
          ⟨VFS_ERROR, (copyVolume (VFS_NAME_LENGTH - 1) rest).2, []⟩
          (parseRest (copyVolume (VFS_NAME_LENGTH - 1) rest).2)
      else parseRest [] (c :: rest)

theorem copyVolume_fst (n : Nat) (path : Name) :
    (copyVolume n path).1 = (parseVolume n path).map (·.2) := by
  induction n generalizing path with
  | zero => rfl
  | succ n ih =>
      cases path with
      | nil => rfl
      | cons c rest =>
          unfold copyVolume parseVolume
          by_cases closed : c = rightBracket
          · simp [closed]
          · simp only [if_neg closed, ih, Option.map_map]
            rfl

theorem copyVolume_stored {n : Nat} {path volume rest : Name}
    (parsed : parseVolume n path = some (volume, rest)) :
    (copyVolume n path).2 = volume.bytes := by
  induction n generalizing path volume with
  | zero => cases parsed
  | succ n ih =>
      cases path with
      | nil => cases parsed
      | cons c path =>
          unfold parseVolume at parsed
          unfold copyVolume
          by_cases closed : c = rightBracket
          · rw [if_pos closed] at parsed ⊢
            cases parsed
            rfl
          · rw [if_neg closed] at parsed ⊢
            obtain ⟨⟨first, last⟩, before, same⟩ := Option.map_eq_some_iff.1 parsed
            cases same
            simp only [ih before, Name.bytes, List.map_cons]

theorem copyVolume_length (n : Nat) (path : Name) : (copyVolume n path).2.length ≤ n := by
  induction n generalizing path with
  | zero => exact Nat.le_refl 0
  | succ n ih =>
      cases path with
      | nil => exact Nat.zero_le _
      | cons c rest =>
          unfold copyVolume
          by_cases closed : c = rightBracket
          · simp [closed]
          · rw [if_neg closed]
            exact Nat.succ_le_succ (ih rest)

theorem copyFilename_length (n : Nat) (path : Name) : (copyFilename n path).2.length ≤ n := by
  induction n generalizing path with
  | zero => exact Nat.le_refl 0
  | succ n ih =>
      cases path with
      | nil => exact Nat.succ_le_succ (Nat.zero_le _)
      | cons c rest => exact Nat.succ_le_succ (ih rest)

theorem copyFilename_fst (n : Nat) (path : Name) :
    (copyFilename n path).1 = (parseFilename n path).isSome := by
  induction n generalizing path with
  | zero => rfl
  | succ n ih =>
      cases path with
      | nil => rfl
      | cons c rest =>
          unfold copyFilename parseFilename
          rw [Option.isSome_map, ih]

theorem parseFilename_eq_some {n : Nat} {path filename : Name} :
    parseFilename n path = some filename ↔ path = filename ∧ filename.length < n := by
  induction n generalizing path filename with
  | zero => simp [parseFilename]
  | succ n ih =>
      cases path with
      | nil => cases filename <;> simp [parseFilename]
      | cons c rest =>
          unfold parseFilename
          rw [Option.map_eq_some_iff]
          constructor
          · rintro ⟨last, parsed, rfl⟩
            obtain ⟨rfl, short⟩ := ih.1 parsed
            exact ⟨rfl, Nat.succ_lt_succ short⟩
          · rintro ⟨rfl, short⟩
            exact ⟨rest, ih.2 ⟨rfl, Nat.lt_of_succ_lt_succ short⟩, rfl⟩

theorem copyFilename_stored {n : Nat} {path : Name} (short : path.length < n) :
    (copyFilename n path).2 = path.bytes ++ [0] := by
  induction n generalizing path with
  | zero => cases short
  | succ n ih =>
      cases path with
      | nil => rfl
      | cons c rest =>
          unfold copyFilename
          rw [ih (Nat.lt_of_succ_lt_succ short)]
          rfl

/-- The volume name is what comes before the bracket, in fewer than `n` characters. -/
theorem parseVolume_eq_some {n : Nat} {path volume rest : Name} :
    parseVolume n path = some (volume, rest) ↔
      path = volume ++ rightBracket :: rest ∧ rightBracket ∉ volume ∧ volume.length < n := by
  induction n generalizing path volume with
  | zero => simp [parseVolume]
  | succ n ih =>
      cases path with
      | nil => simp [parseVolume]
      | cons c path =>
          unfold parseVolume
          by_cases closed : c = rightBracket
          · rw [if_pos closed]
            cases volume with
            | nil => simp [closed]
            | cons d volume =>
                simp only [Option.some.injEq, Prod.mk.injEq, reduceCtorEq, false_and,
                  List.cons_append, List.cons.injEq, List.mem_cons, not_or, false_iff]
                rintro ⟨⟨rfl, -⟩, ⟨ne, -⟩, -⟩
                exact ne closed.symm
          · rw [if_neg closed, Option.map_eq_some_iff]
            constructor
            · rintro ⟨⟨first, last⟩, parsed, same⟩
              cases same
              obtain ⟨rfl, plain, short⟩ := ih.1 parsed
              refine ⟨rfl, ?_, Nat.succ_lt_succ short⟩
              simp only [List.mem_cons, not_or]
              exact ⟨fun h => closed h.symm, plain⟩
            · rintro ⟨same, plain, short⟩
              cases volume with
              | nil => exact absurd (List.cons.inj same).1 closed
              | cons d volume =>
                  obtain ⟨rfl, rfl⟩ := List.cons.inj same
                  simp only [List.mem_cons, not_or] at plain
                  exact ⟨(volume, rest), ih.2 ⟨rfl, plain.2, Nat.lt_of_succ_lt_succ short⟩, rfl⟩

/-! ## The result -/

section Result

variable {pathname volume filename : Name}

/-- The pathname is written as the grammar says, for this volume and this file. -/
inductive Spells : Name → Name → Name → Prop where
  | onVolume (volume filename : Name) (plain : rightBracket ∉ volume)
      (volumeFits : volume.length ≤ VFS_NAME_LENGTH - 1)
      (fits : filename.length ≤ VFS_NAME_LENGTH - 1) :
      Spells (leftBracket :: (volume ++ rightBracket :: filename)) volume filename
  | noVolume (filename : Name) (noBracket : filename.head? ≠ some leftBracket)
      (fits : filename.length ≤ VFS_NAME_LENGTH - 1) : Spells filename [] filename

theorem vfsParsePathname_volume (path : Name) :
    vfsParsePathname (leftBracket :: path) =
      (parseVolume (VFS_NAME_LENGTH - 1) path).bind fun r =>
        (parseFilename VFS_NAME_LENGTH r.2).map fun f => (r.1, f) := by
  simp only [vfsParsePathname, if_true]

theorem parsePathname_volume (path : Name) :
    parsePathname (leftBracket :: path) =
      (copyVolume (VFS_NAME_LENGTH - 1) path).1.elim
        ⟨VFS_ERROR, (copyVolume (VFS_NAME_LENGTH - 1) path).2, []⟩
        (parseRest (copyVolume (VFS_NAME_LENGTH - 1) path).2) := by
  simp only [parsePathname, if_true]

theorem vfsParsePathname_file {path : Name} (noBracket : path.head? ≠ some leftBracket) :
    vfsParsePathname path = (parseFilename VFS_NAME_LENGTH path).map fun f => ([], f) := by
  cases path with
  | nil => rfl
  | cons c path => exact if_neg (by simpa using noBracket)

theorem parsePathname_file {path : Name} (noBracket : path.head? ≠ some leftBracket) :
    parsePathname path = parseRest [] path := by
  cases path with
  | nil => rfl
  | cons c path => exact if_neg (by simpa using noBracket)

/-- A pathname has a volume part or none. -/
theorem bracket_cases (pathname : Name) :
    (∃ path, pathname = leftBracket :: path) ∨ pathname.head? ≠ some leftBracket := by
  cases pathname with
  | nil => exact .inr (by simp)
  | cons c path =>
      by_cases bracket : c = leftBracket
      · exact .inl ⟨path, by rw [bracket]⟩
      · exact .inr (by simpa using bracket)

/-- What the parser accepts: the grammar, without the longest volume names. -/
theorem vfsParsePathname_eq_some :
    vfsParsePathname pathname = some (volume, filename) ↔
      Spells pathname volume filename ∧ volume.length < VFS_NAME_LENGTH - 1 := by
  rcases bracket_cases pathname with ⟨path, rfl⟩ | noBracket
  · rw [vfsParsePathname_volume, Option.bind_eq_some_iff]
    constructor
    · rintro ⟨⟨first, rest⟩, parsed, parsedRest⟩
      obtain ⟨last, parsedRest, same⟩ := Option.map_eq_some_iff.1 parsedRest
      cases same
      obtain ⟨rfl, plain, short⟩ := parseVolume_eq_some.1 parsed
      obtain ⟨rfl, fits⟩ := parseFilename_eq_some.1 parsedRest
      exact ⟨.onVolume _ _ plain (Nat.le_of_lt short) (Nat.le_of_lt_succ fits), short⟩
    · rintro ⟨spells, short⟩
      cases spells with
      | onVolume _ _ plain volumeFits fits =>
          refine ⟨(volume, filename), parseVolume_eq_some.2 ⟨rfl, plain, short⟩, ?_⟩
          exact Option.map_eq_some_iff.2
            ⟨filename, parseFilename_eq_some.2 ⟨rfl, Nat.lt_succ_of_le fits⟩, rfl⟩
      | noVolume _ noBracket => exact absurd rfl noBracket
  · rw [vfsParsePathname_file noBracket, Option.map_eq_some_iff]
    constructor
    · rintro ⟨last, parsed, same⟩
      cases same
      obtain ⟨rfl, short⟩ := parseFilename_eq_some.1 parsed
      exact ⟨.noVolume _ noBracket (Nat.le_of_lt_succ short), by decide⟩
    · rintro ⟨spells, -⟩
      cases spells with
      | onVolume => exact absurd rfl noBracket
      | noVolume _ _ fits => exact ⟨_, parseFilename_eq_some.2 ⟨rfl, Nat.lt_succ_of_le fits⟩, rfl⟩

/-- The name parser is what `vfs_parse_pathname` leaves in its buffers. -/
theorem vfsParsePathname_eq (pathname : Name) :
    vfsParsePathname pathname =
      if (parsePathname pathname).result = VFS_OK then
        some (cstring (parsePathname pathname).volumebuf,
          cstring (parsePathname pathname).filenamebuf)
      else none := by
  have rest : ∀ volume path : Name,
      ((parseFilename VFS_NAME_LENGTH path).map fun f => (volume, f)) =
        if (parseRest volume.bytes path).result = VFS_OK then
          some (cstring (parseRest volume.bytes path).volumebuf,
            cstring (parseRest volume.bytes path).filenamebuf)
        else none := by
    intro volume path
    unfold parseRest
    rw [copyFilename_fst]
    cases parsed : parseFilename VFS_NAME_LENGTH path with
    | none => simp [VFS_OK, VFS_ERROR]
    | some filename =>
        obtain ⟨rfl, short⟩ := parseFilename_eq_some.1 parsed
        simp [copyFilename_stored short, cstring_append]
  rcases bracket_cases pathname with ⟨path, rfl⟩ | noBracket
  · rw [vfsParsePathname_volume, parsePathname_volume, copyVolume_fst]
    cases parsed : parseVolume (VFS_NAME_LENGTH - 1) path with
    | none => simp [VFS_OK, VFS_ERROR]
    | some pair =>
        rw [copyVolume_stored parsed]
        exact rest pair.1 pair.2
  · rw [vfsParsePathname_file noBracket, parsePathname_file noBracket]
    exact rest [] pathname

/-- **No buffer is overrun.** -/
theorem parsePathname_fits (pathname : Name) :
    (parsePathname pathname).volumebuf.length ≤ VFS_NAME_LENGTH ∧
      (parsePathname pathname).filenamebuf.length ≤ VFS_NAME_LENGTH := by
  have rest : ∀ (stored : List Byte) (path : Name), stored.length ≤ VFS_NAME_LENGTH - 1 →
      (parseRest stored path).volumebuf.length ≤ VFS_NAME_LENGTH ∧
        (parseRest stored path).filenamebuf.length ≤ VFS_NAME_LENGTH := by
    intro stored path short
    refine ⟨?_, copyFilename_length _ _⟩
    simp only [parseRest, List.length_append, List.length_singleton]
    unfold VFS_NAME_LENGTH at short ⊢
    omega
  rcases bracket_cases pathname with ⟨path, rfl⟩ | noBracket
  · rw [parsePathname_volume]
    have short := copyVolume_length (VFS_NAME_LENGTH - 1) path
    cases (copyVolume (VFS_NAME_LENGTH - 1) path).1 with
    | none => exact ⟨Nat.le_trans short (by decide), Nat.zero_le _⟩
    | some last => exact rest _ last short
  · rw [parsePathname_file noBracket]
    exact rest [] pathname (by simp)

/-! ## Where the grammar is met -/

/-- The call succeeds with these two names. -/
def Parses (pathname volume filename : Name) : Prop :=
  (parsePathname pathname).result = VFS_OK ∧
    cstring (parsePathname pathname).volumebuf = volume ∧
    cstring (parsePathname pathname).filenamebuf = filename

theorem parses_iff :
    Parses pathname volume filename ↔ vfsParsePathname pathname = some (volume, filename) := by
  rw [vfsParsePathname_eq]
  unfold Parses
  by_cases ok : (parsePathname pathname).result = VFS_OK
  · simp [ok]
  · simp [ok]

/-- Exactly the grammar is accepted, and the buffers hold what is written. -/
def ParsesRight (pathname : Name) : Prop :=
  (∀ volume filename, Parses pathname volume filename ↔ Spells pathname volume filename) ∧
    (parsePathname pathname).volumebuf.length ≤ 16 ∧
    (parsePathname pathname).filenamebuf.length ≤ 16

/-- A name that a volume can be mounted under and that has no bracket in it. -/
structure Mountable (volume : Name) : Prop where
  positive : 1 ≤ volume.length
  fits : volume.length ≤ VFS_NAME_LENGTH - 1
  plain : rightBracket ∉ volume

/-- A file on a volume whose name has 15 characters. -/
def LongVolume (pathname : Name) : Prop :=
  ∃ volume filename : Name, pathname = leftBracket :: (volume ++ rightBracket :: filename) ∧
    rightBracket ∉ volume ∧ volume.length = 15 ∧ filename.length ≤ 15

/-- **The grammar is met** on every pathname but those on a volume whose name has 15
characters, and such a volume can not be named at all. -/
theorem parsePathname_right_iff (pathname volume : Name) :
    (ParsesRight pathname ↔ ¬ LongVolume pathname) ∧
      ((Mountable volume → ∃ pathname filename, Parses pathname volume filename) ↔
        ¬ (Mountable volume ∧ volume.length = 15)) := by
  constructor
  · constructor
    · rintro ⟨accepts, -⟩ ⟨volume, filename, rfl, plain, long, fits⟩
      have spells := Spells.onVolume volume filename plain (Nat.le_of_eq long) fits
      have short := (vfsParsePathname_eq_some.1 (parses_iff.1 ((accepts _ _).2 spells))).2
      rw [long] at short
      exact absurd short (by decide)
    · intro short
      refine ⟨fun volume filename => ?_, parsePathname_fits pathname⟩
      rw [parses_iff, vfsParsePathname_eq_some, and_iff_left_iff_imp]
      intro spells
      cases spells with
      | onVolume _ _ plain volumeFits fits =>
          apply Nat.lt_of_le_of_ne volumeFits
          intro long
          exact short ⟨volume, filename, rfl, plain, long, fits⟩
      | noVolume => decide
  · constructor
    · rintro named ⟨mountable, long⟩
      obtain ⟨pathname, filename, parses⟩ := named mountable
      have short := (vfsParsePathname_eq_some.1 (parses_iff.1 parses)).2
      rw [long] at short
      exact absurd short (by decide)
    · intro short mountable
      refine ⟨leftBracket :: (volume ++ rightBracket :: []), [], parses_iff.2 ?_⟩
      refine vfsParsePathname_eq_some.2
        ⟨.onVolume volume [] mountable.plain mountable.fits (Nat.zero_le _), ?_⟩
      exact Nat.lt_of_le_of_ne mountable.fits fun long => short ⟨mountable, long⟩

/-- The volume of fifteen letters is not found. -/
theorem parsePathname_not_right :
    ¬ ParsesRight (leftBracket :: (List.replicate 15 ⟨0x76#8, by decide⟩ ++ [rightBracket])) ∧
      ¬ ∃ pathname filename, Parses pathname (List.replicate 15 ⟨0x76#8, by decide⟩) filename := by
  constructor
  · rintro ⟨accepts, -⟩
    have parses := (accepts _ _).2 (.onVolume (List.replicate 15 ⟨0x76#8, by decide⟩) []
      (by decide) (by decide) (by decide))
    exact absurd parses.1 (by decide)
  · rintro ⟨pathname, filename, parses⟩
    have short := (vfsParsePathname_eq_some.1 (parses_iff.1 parses)).2
    exact absurd short (by decide)

end Result

end Buenos.Fs
