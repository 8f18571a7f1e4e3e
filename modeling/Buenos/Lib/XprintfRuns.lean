/-
# Lib.XprintfRuns -- what a format is read as, and when the reading ends

`pieces` splits a format into plain characters and conversions with the modifiers read for them.
A conversion whose modifiers run into a `'9'` is `stuck`: `scan_int` stops before that character,
so the modifier loop meets it again and again.

`formatLoop_eq` says that the loop over the format is `emit`, the conversions of the pieces in turn
until the buffer is full, and that it never ends where `emit` comes to a stuck piece.  `printed` is
what one piece prints.  So `vxnprintf` ends exactly when no piece that it comes to is stuck
(`Consumes`), and `scan_int` reads a number exactly when none of its digits is `0` or `9`.
-/
import Buenos.Lib.Xprintf
import Mathlib.Data.List.TakeWhile

namespace Buenos.Lib

open Buenos.Theory

set_option autoImplicit false

/-! ## What a number should be read as -/

def isDigit (c : CChar) : Bool := ascii '0' ≤ c.val && c.val ≤ ascii '9'

/-- The digits that `scan_int` goes past. -/
def isScanned (c : CChar) : Bool := ascii '0' < c.val && c.val < ascii '9'

def digitValue (c : CChar) : Nat := c.val.toNat - 48

/-- The value of a string of digits. -/
def decimalValue (s : Name) : Nat := s.foldl (fun value c => 10 * value + digitValue c) 0

/-- The number at the start of a string, and the string after it. -/
def numberAt (s : Name) : Word × Name :=
  (BitVec.ofNat 32 (decimalValue (s.takeWhile isDigit)), s.dropWhile isDigit)

theorem digit_value {c : CChar} (low : ascii '0' ≤ c.val) :
    (c.val - ascii '0').setWidth 32 = BitVec.ofNat 32 (digitValue c) := by
  apply BitVec.eq_of_toNat_eq
  have small := c.val.isLt
  have low : 48 ≤ c.val.toNat := low
  have zero : (ascii '0').toNat = 48 := rfl
  rw [BitVec.toNat_setWidth, BitVec.toNat_sub_of_le low, zero, BitVec.toNat_ofNat, digitValue]

theorem digit_step (value : Nat) {c : CChar} (low : ascii '0' ≤ c.val) :
    10 * BitVec.ofNat 32 value + (c.val - ascii '0').setWidth 32 =
      BitVec.ofNat 32 (10 * value + digitValue c) := by
  rw [digit_value low, BitVec.ofNat_add, BitVec.ofNat_mul]
  rfl

theorem scanFrom_eq (value : Nat) (s : Name) :
    scanFrom (BitVec.ofNat 32 value) s =
      (BitVec.ofNat 32 ((s.takeWhile isScanned).foldl (fun value c => 10 * value + digitValue c) value),
        s.dropWhile isScanned) := by
  induction s generalizing value with
  | nil => rfl
  | cons c s ih =>
      by_cases scanned : ascii '0' < c.val ∧ c.val < ascii '9'
      · have holds : isScanned c = true := by simp [isScanned, scanned]
        rw [scanFrom, if_pos scanned, digit_step value (Nat.le_of_lt scanned.1), ih]
        simp [holds]
      · have fails : isScanned c = false := by
          simpa [isScanned] using scanned
        rw [scanFrom, if_neg scanned]
        simp [fails]

theorem isScanned_iff (c : CChar) :
    isScanned c = true ↔ isDigit c = true ∧ c.val ≠ ascii '0' ∧ c.val ≠ ascii '9' := by
  unfold isScanned isDigit
  generalize c.val = b
  revert b
  decide +kernel

/-- Stopping at a stronger test is stopping at the weaker one exactly when all that was passed
satisfies the stronger. -/
theorem dropWhile_eq_iff {p q : CChar → Bool} (stronger : ∀ c, q c = true → p c = true)
    (s : Name) : s.dropWhile q = s.dropWhile p ↔ ∀ c ∈ s.takeWhile p, q c = true := by
  induction s with
  | nil => simp
  | cons c s ih =>
      by_cases hp : p c = true
      · by_cases hq : q c = true
        · simp [hp, hq, ih]
        · have longer : c :: s ≠ s.dropWhile p := by
            intro same
            have length := congrArg List.length same
            have := (s.dropWhile_suffix p).length_le
            simp only [List.length_cons] at length
            omega
          simp [hp, hq, longer]
      · have hq : ¬ q c = true := fun h => hp (stronger c h)
        simp [hp, hq]

theorem takeWhile_of_all {p q : CChar → Bool} (stronger : ∀ c, q c = true → p c = true)
    {s : Name} (all : ∀ c ∈ s.takeWhile p, q c = true) : s.takeWhile q = s.takeWhile p := by
  have same := (dropWhile_eq_iff stronger s).2 all
  have whole : s.takeWhile q ++ s.dropWhile p = s.takeWhile p ++ s.dropWhile p := by
    rw [← same, List.takeWhile_append_dropWhile, same, List.takeWhile_append_dropWhile]
  exact List.append_cancel_right whole

theorem scanInt_eq_numberAt (s : Name) :
    scanInt s = numberAt s ↔ ∀ c ∈ s.takeWhile isDigit, c.val ≠ ascii '0' ∧ c.val ≠ ascii '9' := by
  have stronger (c : CChar) (scanned : isScanned c = true) : isDigit c = true :=
    ((isScanned_iff c).1 scanned).1
  have scanned_iff : (∀ c ∈ s.takeWhile isDigit, c.val ≠ ascii '0' ∧ c.val ≠ ascii '9') ↔
      ∀ c ∈ s.takeWhile isDigit, isScanned c = true := by
    refine forall₂_congr fun c inside => ?_
    rw [isScanned_iff, and_iff_right (List.mem_takeWhile_imp inside)]
  rw [scanned_iff, scanInt, show (0 : Word) = BitVec.ofNat 32 0 from rfl, scanFrom_eq, numberAt,
    Prod.mk.injEq, dropWhile_eq_iff stronger]
  refine ⟨And.right, fun all => ⟨?_, all⟩⟩
  rw [takeWhile_of_all stronger all]
  rfl

/-! ## The modifiers of a conversion -/

theorem nine_stays {nine : CChar} (is : nine.val = ascii '9') (fmt : Name) :
    scanInt (nine :: fmt) = (0, nine :: fmt) := by
  rw [scanInt, scanFrom, if_neg]
  rw [is]
  decide

theorem scanFrom_length (value : Word) (s : Name) : (scanFrom value s).2.length ≤ s.length := by
  induction s generalizing value with
  | nil => simp [scanFrom]
  | cons c s ih =>
      rw [scanFrom]
      split
      · exact (ih _).trans (by simp)
      · simp

/-- Every modifier but `'9'` moves the format on. -/
theorem modifier_shorter {mods next : Modifiers} {ch : CChar} {fmt rest : Name}
    (other : ch.val ≠ ascii '9') (read : modifier mods ch fmt = some (next, rest)) :
    rest.length ≤ fmt.length := by
  unfold modifier at read
  split_ifs at read with _ _ _ _ _ _ width
  all_goals simp only [Option.some.injEq, Prod.mk.injEq] at read
  all_goals obtain ⟨rfl, rfl⟩ := read
  · exact le_refl _
  · exact le_refl _
  · exact le_refl _
  · exact le_refl _
  · exact le_refl _
  · exact scanFrom_length _ _
  · rw [scanInt, scanFrom, if_pos]
    · exact scanFrom_length _ _
    · revert width other
      generalize ch.val = b
      revert b
      decide +kernel

set_option linter.unusedVariables false in
/-- The modifiers of a conversion, the character after them and the rest of the format; nothing if
a `'9'` stands where a modifier is read. -/
def parseModifiers (mods : Modifiers) (ch : CChar) (fmt : Name) :
    Option (Modifiers × Option CChar × Name) :=
  if nine : ch.val = ascii '9' then none
  else
    match read : modifier mods ch fmt with
    | none => some (mods, some ch, fmt)
    | some (mods, []) => some (mods, none, [])
    | some (mods, ch :: fmt) => parseModifiers mods ch fmt
termination_by fmt.length
decreasing_by exact modifier_shorter nine read

theorem parseModifiers_length {mods next : Modifiers} {ch : CChar} {fmt rest : Name}
    {after : Option CChar} (parsed : parseModifiers mods ch fmt = some (next, after, rest)) :
    rest.length ≤ fmt.length := by
  fun_induction parseModifiers mods ch fmt with
  | case1 => simp at parsed
  | case2 => simp_all
  | case3 => simp_all
  | case4 mods ch fmt nine mods' ch' fmt' read ih =>
      have shorter := modifier_shorter nine read
      have rest := ih parsed
      simp only [List.length_cons] at shorter
      omega

/-- The loop over the modifiers ends exactly when no `'9'` is read as one. -/
theorem readModifiers_eq (mods : Modifiers) (ch : CChar) (fmt : Name) (rounds : Nat) :
    (parseModifiers mods ch fmt = none → readModifiers rounds mods ch fmt = none) ∧
      (fmt.length < rounds → readModifiers rounds mods ch fmt = parseModifiers mods ch fmt) := by
  fun_induction parseModifiers mods ch fmt generalizing rounds with
  | case1 mods ch fmt nine =>
      have trapped : readModifiers rounds mods ch fmt = none := by
        refine @loop_trap _ _ modifierRound (fun s => s.2.1 = ch) ?_ (mods, ch, fmt) rfl rounds
        rintro ⟨mods, ch', fmt⟩ same
        obtain rfl : ch' = ch := same
        refine .inr ⟨({ mods with width := 0 }, ch', fmt), ?_, rfl⟩
        rw [modifierRound, modifier, nine_stays nine]
        simp [nine, ascii]
      exact ⟨fun _ => trapped, fun _ => trapped⟩
  | case2 mods ch fmt nine read =>
      refine ⟨fun none => by simp at none, fun enough => ?_⟩
      obtain ⟨rounds, rfl⟩ : ∃ k, rounds = k + 1 := ⟨rounds - 1, by omega⟩
      exact loop_exit rounds (by simp [modifierRound, read])
  | case3 mods ch fmt nine mods' read =>
      refine ⟨fun none => by simp at none, fun enough => ?_⟩
      obtain ⟨rounds, rfl⟩ : ∃ k, rounds = k + 1 := ⟨rounds - 1, by omega⟩
      exact loop_exit rounds (by simp [modifierRound, read])
  | case4 mods ch fmt nine mods' ch' fmt' read ih =>
      have shorter := modifier_shorter nine read
      simp only [List.length_cons] at shorter
      have next : modifierRound (mods, ch, fmt) = some (.inl (mods', ch', fmt')) := by
        simp [modifierRound, read]
      constructor
      · intro stuck
        cases rounds with
        | zero => rfl
        | succ rounds => exact (loop_next rounds next).trans ((ih rounds).1 stuck)
      · intro enough
        obtain ⟨rounds, rfl⟩ : ∃ k, rounds = k + 1 := ⟨rounds - 1, by omega⟩
        exact (loop_next rounds next).trans ((ih rounds).2 (by omega))

theorem readModifiers_some {mods : Modifiers} {ch : CChar} {fmt : Name} {rounds : Nat}
    {r : Modifiers × Option CChar × Name} (read : readModifiers rounds mods ch fmt = some r) :
    parseModifiers mods ch fmt = some r := by
  have more : readModifiers (max rounds (fmt.length + 1)) mods ch fmt = some r :=
    loop_mono (fun _ _ same => same) (le_max_left _ _) read
  rw [← more]
  exact ((readModifiers_eq mods ch fmt _).2 (by omega)).symm

/-! ## Pieces -/

inductive Piece where
  | plain (c : CChar)
  | conversion (mods : Modifiers) (ch : CChar)
  /-- A conversion whose modifiers are never read to their end. -/
  | stuck
deriving DecidableEq

set_option linter.unusedVariables false in
def pieces : Name → List Piece
  | [] => []
  | c :: fmt =>
      if c.val ≠ ascii '%' then .plain c :: pieces fmt
      else
        match fmt with
        | [] => []
        | ch :: fmt =>
            match parsed : parseModifiers {} ch fmt with
            | none => [.stuck]
            | some (_, none, _) => []
            | some (mods, some ch, rest) => .conversion mods ch :: pieces rest
termination_by fmt => fmt.length
decreasing_by
  · simp
  · have shorter := parseModifiers_length parsed
    simp only [List.length_cons]
    omega

theorem pieces_conversion {c ch ch' : CChar} {fmt rest : Name} {mods : Modifiers} (percent : c.val = ascii '%')
    (parsed : parseModifiers {} ch fmt = some (mods, some ch', rest)) :
    pieces (c :: ch :: fmt) = .conversion mods ch' :: pieces rest := by
  rw [pieces, if_neg (not_not_intro percent)]
  split
  · simp_all
  · simp_all
  · rename_i read
    cases Option.some.inj (parsed.symm.trans read)
    rfl

theorem pieces_stuck {c ch : CChar} {fmt : Name} (percent : c.val = ascii '%')
    (parsed : parseModifiers {} ch fmt = none) : pieces (c :: ch :: fmt) = [.stuck] := by
  rw [pieces, if_neg (not_not_intro percent)]
  split <;> simp_all

/-! ## What is printed -/

/-- The stores that leave `chars` at the start of the buffer, newest first. -/
def storesOf (chars : List Byte) : List (Nat × Byte) := (chars.zipIdx.map Prod.swap).reverse

/-- The state of a call that has printed `chars`. -/
def Output.after (chars : List Byte) (ap : Nat) : Output :=
  { buf := chars.length, stores := storesOf chars, written := BitVec.ofNat 32 chars.length, ap }

@[simp] theorem Output.after_written (chars : List Byte) (ap : Nat) :
    (Output.after chars ap).written = BitVec.ofNat 32 chars.length := rfl

theorem put_after (c : Byte) (chars : List Byte) (ap : Nat) :
    put c (.after chars ap) = .after (chars ++ [c]) ap := by
  simp [put, printc, Output.after, storesOf, List.zipIdx_append, BitVec.ofNat_add]

theorem putAll_after (text chars : List Byte) (ap : Nat) :
    putAll text (.after chars ap) = .after (chars ++ text) ap := by
  induction text generalizing chars with
  | nil => simp [putAll]
  | cons c text ih =>
      have rest := ih (chars ++ [c])
      rw [← put_after, List.append_assoc] at rest
      exact rest

theorem nextArg_after (args : Arguments) (chars : List Byte) (ap : Nat) :
    nextArg args (.after chars ap) = (args.word ap, .after chars (ap + 1)) := rfl

/-- The kinds of conversion. -/
inductive Form where
  | signed
  | unsigned (base : Nat)
  | hex (alt smalls : Bool)
  | char
  | string
  /-- An unknown type, which is output itself. -/
  | other
deriving DecidableEq

def form (mods : Modifiers) (ch : CChar) : Form :=
  if ch.val = ascii 'i' ∨ ch.val = ascii 'd' then .signed
  else if ch.val = ascii 'o' then .unsigned 8
  else if ch.val = ascii 'u' then .unsigned 10
  else if ch.val = ascii 'p' then .hex true true
  else if ch.val = ascii 'x' then .hex mods.alt true
  else if ch.val = ascii 'X' then .hex mods.alt false
  else if ch.val = ascii 'c' then .char
  else if ch.val = ascii 's' then .string
  else .other

/-- The characters in front of a signed number. -/
def signs (mods : Modifiers) (arg : Word) : List Byte :=
  (if arg.toInt < 0 then [ascii '-'] else []) ++
    if mods.sign then [ascii '+'] else if mods.space then [ascii ' '] else []

def magnitude (arg : Word) : Word := if arg.toInt < 0 then -arg else arg

/-- The digits of a number conversion, padded. -/
def number (mods : Modifiers) (arg : Word) : Form → List Byte
  | .signed => uintText (magnitude arg) 10 false 0 0
  | .unsigned base => uintText arg base false (paddedPrec mods mods.width) mods.width
  | .hex alt smalls =>
      let width := if alt then mods.width - 2 else mods.width
      uintText arg 16 smalls (paddedPrec mods width) width
  | _ => []

/-- What `print_uint` is left to print into. -/
def left (size written : Word) : Nat := (size - written).toInt.toNat

/-- What is printed in front of a number, when `written` characters have been. -/
def lead (size written : Word) (mods : Modifiers) (arg : Word) : Form → List Byte
  | .signed => signs mods arg
  | .hex alt _ =>
      if alt then
        ascii '0' :: if (written + 1).toInt < size.toInt then [ascii 'x'] else []
      else []
  | _ => []

/-- What a number conversion prints, when `written` characters have been. -/
def numberPrinted (size written : Word) (mods : Modifiers) (arg : Word) (form : Form) : List Byte :=
  let before := lead size written mods arg form
  before ++ (number mods arg form).take (left size (written + BitVec.ofNat 32 before.length))

/-- The number of characters that `%s` prints at most. -/
def stringLimit (size written : Word) (mods : Modifiers) : Nat :=
  let w :=
    if mods.prec ≠ -1 ∧ (written + mods.prec).toInt < size.toInt then written + mods.prec else size
  (w.toInt - written.toInt).toNat

def Piece.printed (args : Arguments) (size written : Word) (ap : Nat) : Piece → List Byte
  | .plain c => [c.val]
  | .stuck => []
  | .conversion mods ch =>
      let arg := args.word ap
      match form mods ch with
      | .char => [arg.setWidth 8]
      | .string => (args.string arg).bytes.take (stringLimit size written mods)
      | .other => [ch.val]
      | form => numberPrinted size written mods arg form

/-- The arguments a piece takes. -/
def Piece.arguments : Piece → Nat
  | .conversion mods ch => if form mods ch = .other then 0 else 1
  | _ => 0

theorem printUint_eq (size n : Word) (base : Nat) (smalls : Bool) (prec width : Word) :
    printUint size n base smalls prec width =
      (uintText n base smalls prec width).take size.toInt.toNat := by
  rw [printUint]
  split
  · rw [Int.toNat_of_nonpos (by omega), List.take_zero]
  · rfl

section Convert

variable (args : Arguments) (size : Word) (mods : Modifiers) (chars : List Byte) (ap : Nat)

theorem sign_after :
    (if mods.sign = true then put (ascii '+') (.after chars ap)
      else if mods.space = true then put (ascii ' ') (.after chars ap) else .after chars ap) =
      .after (chars ++ if mods.sign = true then [ascii '+'] else
        if mods.space = true then [ascii ' '] else []) ap := by
  split_ifs
  · exact put_after _ _ _
  · exact put_after _ _ _
  · rw [List.append_nil]

theorem convertSigned_after :
    convertSigned args size mods (.after chars ap) =
      .after (chars ++ numberPrinted size (BitVec.ofNat 32 chars.length) mods (args.word ap) .signed)
        (ap + 1) := by
  rw [convertSigned, nextArg_after, numberPrinted, number, magnitude, lead, signs]
  by_cases negative : (args.word ap).toInt < 0
  · simp only [negative, if_true]
    rw [put_after, sign_after, putAll_after, printUint_eq, left, Output.after_written]
    simp only [List.append_assoc, List.length_append, BitVec.ofNat_add]
  · simp only [negative, if_false]
    rw [sign_after, putAll_after, printUint_eq, left, Output.after_written]
    simp only [List.append_assoc, List.nil_append, List.length_append, BitVec.ofNat_add]

theorem convertUnsigned_after (base : Nat) :
    convertUnsigned args size mods base (.after chars ap) =
      .after (chars ++
        numberPrinted size (BitVec.ofNat 32 chars.length) mods (args.word ap) (.unsigned base))
        (ap + 1) := by
  rw [convertUnsigned, nextArg_after]
  simp [putAll_after, printUint_eq, numberPrinted, lead, number, left]

theorem convertHex_after (alt smalls : Bool) :
    convertHex args size mods alt smalls (.after chars ap) =
      .after (chars ++
        numberPrinted size (BitVec.ofNat 32 chars.length) mods (args.word ap) (.hex alt smalls))
        (ap + 1) := by
  rw [convertHex]
  cases alt with
  | false =>
      simp [nextArg_after, putAll_after, printUint_eq, numberPrinted, number, left, lead]
  | true =>
      have next : BitVec.ofNat 32 (chars ++ [ascii '0']).length = BitVec.ofNat 32 chars.length + 1 := by
        simp [BitVec.ofNat_add]
      simp only [if_true]
      rw [put_after, Output.after_written, next, numberPrinted, lead]
      by_cases fits : (BitVec.ofNat 32 chars.length + 1).toInt < size.toInt
      · simp only [fits, if_true]
        rw [put_after, nextArg_after, putAll_after, printUint_eq, left, Output.after_written]
        simp only [List.append_assoc, List.length_append, BitVec.ofNat_add, number, if_true]
        rfl
      · simp only [fits, if_false]
        rw [nextArg_after, putAll_after, printUint_eq, left, Output.after_written]
        simp only [List.append_assoc, List.length_append, BitVec.ofNat_add, number, if_true]

theorem convertString_after :
    convertString args size mods (.after chars ap) =
      .after (chars ++ (args.string (args.word ap)).bytes.take
        (stringLimit size (BitVec.ofNat 32 chars.length) mods)) (ap + 1) := by
  rw [convertString, nextArg_after]
  simp only [putAll_after, stringLimit, Output.after_written]
  rfl

theorem convert_eq_form (ch : CChar) (out : Output) :
    convert args size mods ch out =
      match form mods ch with
      | .signed => convertSigned args size mods out
      | .unsigned base => convertUnsigned args size mods base out
      | .hex alt smalls => convertHex args size mods alt smalls out
      | .char => put ((args.word out.ap).setWidth 8) { out with ap := out.ap + 1 }
      | .string => convertString args size mods out
      | .other => put ch.val out := by
  unfold convert form
  split_ifs <;> rfl

/-- **What a conversion does** is to print its text. -/
theorem convert_after (ch : CChar) :
    convert args size mods ch (.after chars ap) =
      .after (chars ++
        (Piece.conversion mods ch).printed args size (BitVec.ofNat 32 chars.length) ap)
        (ap + (Piece.conversion mods ch).arguments) := by
  rw [convert_eq_form, Piece.printed, Piece.arguments]
  cases form mods ch with
  | signed => exact convertSigned_after args size mods chars ap
  | unsigned base => exact convertUnsigned_after args size mods chars ap base
  | hex alt smalls => exact convertHex_after args size mods chars ap alt smalls
  | char => exact put_after _ chars (ap + 1)
  | string => exact convertString_after args size mods chars ap
  | other => exact put_after _ chars ap

end Convert

/-- The pieces in turn, until the buffer is full. -/
def emit (args : Arguments) (size : Word) : List Piece → Output → Option Output
  | [], out => some out
  | piece :: rest, out =>
      if out.written.toInt < size.toInt then
        match piece with
        | .plain c => emit args size rest (put c.val out)
        | .conversion mods ch => emit args size rest (convert args size mods ch out)
        | .stuck => none
      else some out

theorem emit_full {args : Arguments} {size : Word} (out : Output)
    (full : ¬ out.written.toInt < size.toInt) (ps : List Piece) :
    emit args size ps out = some out := by
  cases ps with
  | nil => rfl
  | cons p ps => cases p <;> simp [emit, full]

section Loop

variable {args : Arguments} {size : Word} {inner : Nat} {out : Output}

theorem formatRound_full (full : ¬ out.written.toInt < size.toInt) (fmt : Name) :
    formatRound args size inner (fmt, out) = some (.inr out) := by
  cases fmt <;> simp [formatRound, full]

/-- A full buffer ends both. -/
theorem loop_full (full : ¬ out.written.toInt < size.toInt) (outer : Nat) (fmt : Name)
    (ps : List Piece) :
    (emit args size ps out = none → loop (formatRound args size inner) outer (fmt, out) = none) ∧
      (fmt.length < inner → fmt.length < outer →
        loop (formatRound args size inner) outer (fmt, out) = emit args size ps out) := by
  rw [emit_full out full]
  refine ⟨fun none => by simp at none, fun _ enough => ?_⟩
  obtain ⟨outer, rfl⟩ : ∃ k, outer = k + 1 := ⟨outer - 1, by omega⟩
  exact loop_exit outer (formatRound_full full fmt)

theorem formatRound_plain (room : out.written.toInt < size.toInt) {c : CChar}
    (plain : c.val ≠ ascii '%') (fmt : Name) :
    formatRound args size inner (c :: fmt, out) = some (.inl (fmt, put c.val out)) := by
  simp [formatRound, room, plain]

theorem formatRound_percent (room : out.written.toInt < size.toInt) {c : CChar}
    (percent : c.val = ascii '%') (ch : CChar) (fmt : Name) :
    formatRound args size inner (c :: ch :: fmt, out) =
      match readModifiers inner {} ch fmt with
      | none => none
      | some (_, none, _) => some (.inr out)
      | some (mods, some ch, fmt) => some (.inl (fmt, convert args size mods ch out)) := by
  unfold formatRound
  exact (if_neg (not_not_intro room)).trans (if_neg (not_not_intro percent))

/-- **The loop over the format is `emit` over its pieces**, and does not end where `emit` comes to
a stuck piece. -/
theorem formatLoop_eq (outer : Nat) (fmt : Name) (out : Output) :
    (emit args size (pieces fmt) out = none →
        loop (formatRound args size inner) outer (fmt, out) = none) ∧
      (fmt.length < inner → fmt.length < outer →
        loop (formatRound args size inner) outer (fmt, out) = emit args size (pieces fmt) out) := by
  fun_induction pieces fmt generalizing out outer with
  | case1 =>
      refine ⟨fun none => by simp [emit] at none, fun _ enough => ?_⟩
      obtain ⟨outer, rfl⟩ : ∃ k, outer = k + 1 := ⟨outer - 1, by omega⟩
      exact loop_exit outer (by simp [formatRound])
  | case2 c fmt plain ih =>
      by_cases room : out.written.toInt < size.toInt
      · simp only [emit, room, if_true, List.length_cons]
        cases outer with
        | zero => exact ⟨fun _ => rfl, fun _ enough => by omega⟩
        | succ outer =>
            rw [loop_next outer (formatRound_plain room plain fmt)]
            exact ⟨(ih outer _).1, fun inside enough => (ih outer _).2 (by omega) (by omega)⟩
      · exact loop_full room outer _ _
  | case3 c percent =>
      refine ⟨fun none => by simp [emit] at none, fun _ enough => ?_⟩
      obtain ⟨outer, rfl⟩ : ∃ k, outer = k + 1 := ⟨outer - 1, by omega⟩
      exact loop_exit outer (by simp_all [formatRound])
  | case4 c percent ch fmt parsed =>
      by_cases room : out.written.toInt < size.toInt
      · have unread := (readModifiers_eq {} ch fmt inner).1 parsed
        have stays : formatRound args size inner (c :: ch :: fmt, out) = none := by
          rw [formatRound_percent room (not_not.mp percent), unread]
        simp [emit, room, loop_stuck outer stays]
      · exact loop_full room outer _ _
  | case5 c percent ch fmt mods rest parsed =>
      by_cases room : out.written.toInt < size.toInt
      · refine ⟨fun none => by simp [emit] at none, fun inside enough => ?_⟩
        simp only [List.length_cons] at inside enough
        obtain ⟨outer, rfl⟩ : ∃ k, outer = k + 1 := ⟨outer - 1, by omega⟩
        have read := (readModifiers_eq {} ch fmt inner).2 (by omega)
        apply loop_exit outer
        rw [formatRound_percent room (not_not.mp percent), read, parsed]
      · exact loop_full room outer _ _
  | case6 c percent ch fmt mods ch' rest parsed ih =>
      by_cases room : out.written.toInt < size.toInt
      · have shorter := parseModifiers_length parsed
        have next (read : readModifiers inner {} ch fmt = some (mods, some ch', rest)) :
            formatRound args size inner (c :: ch :: fmt, out) =
              some (.inl (rest, convert args size mods ch' out)) := by
          rw [formatRound_percent room (not_not.mp percent), read]
        simp only [emit, room, if_true, List.length_cons]
        constructor
        · intro stuck
          cases outer with
          | zero => rfl
          | succ outer =>
              cases read : readModifiers inner {} ch fmt with
              | none =>
                  apply loop_stuck
                  rw [formatRound_percent room (not_not.mp percent), read]
              | some r =>
                  obtain rfl : r = (mods, some ch', rest) := by
                    have same := readModifiers_some read
                    rw [parsed] at same
                    exact (Option.some.inj same).symm
                  rw [loop_next outer (next read)]
                  exact (ih outer _).1 stuck
        · intro inside enough
          obtain ⟨outer, rfl⟩ : ∃ k, outer = k + 1 := ⟨outer - 1, by omega⟩
          have read := (readModifiers_eq {} ch fmt inner).2 (by omega)
          rw [loop_next outer (next (read.trans parsed))]
          exact (ih outer _).2 (by omega) (by omega)
      · exact loop_full room outer _ _

theorem formatRound_mono {more : Nat} (le : inner ≤ more) (state : Name × Output)
    (r : (Name × Output) ⊕ Output) (went : formatRound args size inner state = some r) :
    formatRound args size more state = some r := by
  obtain ⟨fmt, out⟩ := state
  by_cases room : out.written.toInt < size.toInt
  · rcases fmt with _ | ⟨c, fmt⟩
    · simpa [formatRound] using went
    · by_cases percent : c.val = ascii '%'
      · cases fmt with
        | nil => simpa [formatRound, percent] using went
        | cons ch fmt =>
            rw [formatRound_percent room percent] at went ⊢
            cases read : readModifiers inner {} ch fmt with
            | none =>
                rw [read] at went
                cases went
            | some ended =>
                have same : readModifiers more {} ch fmt = some ended :=
                  loop_mono (fun _ _ same => same) le read
                rw [same]
                rwa [read] at went
      · rw [formatRound_plain room percent] at went ⊢
        exact went
  · rw [formatRound_full room] at went ⊢
    exact went

end Loop

theorem vxnprintf_unread {args : Arguments} {size : Word} {fmt : Name}
    (positive : 0 < size.toInt)
    (unread : emit args size (pieces fmt) (.after [] 0) = none) (rounds : Nat) :
    vxnprintf rounds args size fmt = none := by
  rw [vxnprintf, if_neg (by omega), Option.map_eq_none_iff]
  exact (formatLoop_eq rounds fmt _).1 unread

theorem vxnprintf_read {args : Arguments} {size : Word} {fmt : Name} {out : Output}
    (positive : 0 < size.toInt)
    (read : emit args size (pieces fmt) (.after [] 0) = some out) {rounds : Nat}
    (enough : fmt.length < rounds) :
    vxnprintf rounds args size fmt = some (terminate size out) := by
  rw [vxnprintf, if_neg (by omega), (formatLoop_eq rounds fmt _).2 enough enough]
  exact congrArg (Option.map (terminate size)) read

/-- What a call that ends has returned. -/
theorem vxnprintf_returned {args : Arguments} {size : Word} {fmt : Name} {rounds : Nat}
    {r : Word × Output} (positive : 0 < size.toInt)
    (ended : vxnprintf rounds args size fmt = some r) :
    ∃ out, emit args size (pieces fmt) (.after [] 0) = some out ∧ r = terminate size out := by
  rw [vxnprintf, if_neg (by omega), Option.map_eq_some_iff] at ended
  obtain ⟨out, ran, rfl⟩ := ended
  have enough : fmt.length < max rounds (fmt.length + 1) := by omega
  have longer := loop_mono (formatRound_mono (le_max_left rounds (fmt.length + 1)))
    (le_max_left rounds (fmt.length + 1)) ran
  rw [(formatLoop_eq _ fmt _).2 enough enough] at longer
  exact ⟨out, longer, rfl⟩

/-! ## The formats that are consumed -/

/-- No piece that starts before the buffer is full is stuck. -/
def Consumes (args : Arguments) (size : Word) : List Piece → Word → Nat → Prop
  | [], _, _ => True
  | piece :: rest, written, ap =>
      written.toInt < size.toInt →
        piece ≠ .stuck ∧
          Consumes args size rest
            (written + BitVec.ofNat 32 (piece.printed args size written ap).length)
            (ap + piece.arguments)

/-- One piece of `emit`. -/
theorem emit_cons {args : Arguments} {size : Word} {piece : Piece} {chars : List Byte} {ap : Nat}
    (room : (BitVec.ofNat 32 chars.length).toInt < size.toInt) (readable : piece ≠ .stuck)
    (rest : List Piece) :
    emit args size (piece :: rest) (.after chars ap) =
      emit args size rest
        (.after (chars ++ piece.printed args size (BitVec.ofNat 32 chars.length) ap)
          (ap + piece.arguments)) := by
  cases piece with
  | plain c => simp [emit, room, put_after, Piece.printed, Piece.arguments]
  | conversion mods ch => simp only [emit, Output.after_written, room, if_true, convert_after]
  | stuck => exact absurd rfl readable

theorem emit_eq_none_iff (args : Arguments) (size : Word) (ps : List Piece) (chars : List Byte)
    (ap : Nat) :
    emit args size ps (.after chars ap) = none ↔
      ¬ Consumes args size ps (BitVec.ofNat 32 chars.length) ap := by
  induction ps generalizing chars ap with
  | nil => simp [emit, Consumes]
  | cons piece ps ih =>
      by_cases room : (BitVec.ofNat 32 chars.length).toInt < size.toInt
      · by_cases readable : piece = .stuck
        · subst readable
          simp [emit, room, Consumes]
        · rw [emit_cons room readable, ih, List.length_append, BitVec.ofNat_add]
          simp [Consumes, room, readable]
      · simp [emit_full (.after chars ap) room, Consumes, room]

/-- A call ends exactly when no piece that it comes to is stuck. -/
theorem vxnprintf_ends_iff (args : Arguments) (size : Word) (fmt : Name) :
    (∃ rounds r, vxnprintf rounds args size fmt = some r) ↔ Consumes args size (pieces fmt) 0 0 := by
  by_cases positive : 0 < size.toInt
  · have reads := emit_eq_none_iff args size (pieces fmt) [] 0
    constructor
    · rintro ⟨rounds, r, ended⟩
      by_contra stuck
      rw [vxnprintf_unread positive (reads.2 stuck)] at ended
      cases ended
    · intro consumes
      match read : emit args size (pieces fmt) (.after [] 0) with
      | none => exact absurd consumes (reads.1 read)
      | some out =>
          exact ⟨fmt.length + 1, _, vxnprintf_read positive read (Nat.lt_succ_self _)⟩
  · refine iff_of_true ⟨0, _, if_pos (by omega)⟩ ?_
    cases pieces fmt with
    | nil => trivial
    | cons piece ps => exact fun room => absurd room positive

/-- The width of a conversion is the number that starts with its first digit. -/
theorem modifier_width (mods : Modifiers) {ch : CChar} (low : ascii '1' ≤ ch.val)
    (high : ch.val ≤ ascii '9') (fmt : Name) :
    modifier mods ch fmt =
      some ({ mods with width := (scanInt (ch :: fmt)).1 }, (scanInt (ch :: fmt)).2) := by
  have other (b : Byte) (low : ascii '1' ≤ b) (high : b ≤ ascii '9') : b ≠ ascii '#' ∧
      b ≠ ascii '0' ∧ b ≠ ascii ' ' ∧ b ≠ ascii '+' ∧ b ≠ ascii '-' ∧ b ≠ ascii '.' := by
    revert b
    decide +kernel
  have other := other ch.val low high
  simp [modifier, other, low, high]

/-- **What of a format is consumed.**  A call ends exactly when no conversion that starts before the
buffer is full reads a `'9'` as a modifier.  `scan_int` reads the whole number, and so a precision
or a width is the number written, exactly when the number has no digit `0` or `9`. -/
theorem vxnprintf_consumes_exact (args : Arguments) (size : Word) (fmt s : Name)
    (mods : Modifiers) :
    ((∃ rounds r, vxnprintf rounds args size fmt = some r) ↔
        Consumes args size (pieces fmt) 0 0) ∧
      (scanInt s = numberAt s ↔
        ∀ c ∈ s.takeWhile isDigit, c.val ≠ ascii '0' ∧ c.val ≠ ascii '9') ∧
      (∀ dot : CChar, dot.val = ascii '.' →
        (modifier mods dot s = some ({ mods with prec := (numberAt s).1 }, (numberAt s).2) ↔
          ∀ c ∈ s.takeWhile isDigit, c.val ≠ ascii '0' ∧ c.val ≠ ascii '9')) ∧
      ∀ first : CChar, ascii '1' ≤ first.val → first.val ≤ ascii '9' →
        (modifier mods first s =
            some ({ mods with width := (numberAt (first :: s)).1 }, (numberAt (first :: s)).2) ↔
          ∀ c ∈ (first :: s).takeWhile isDigit, c.val ≠ ascii '0' ∧ c.val ≠ ascii '9') := by
  refine ⟨vxnprintf_ends_iff args size fmt, scanInt_eq_numberAt s, fun dot is => ?_,
    fun first low high => ?_⟩
  · have read : modifier mods dot s =
        some ({ mods with prec := (scanInt s).1 }, (scanInt s).2) := by
      simp [modifier, is, ascii]
    rw [read, ← scanInt_eq_numberAt, Option.some.injEq, Prod.mk.injEq, Prod.ext_iff]
    simp
  · rw [modifier_width mods low high, ← scanInt_eq_numberAt, Option.some.injEq, Prod.mk.injEq,
      Prod.ext_iff]
    simp

def percent : CChar := ⟨ascii '%', by decide⟩
def nine : CChar := ⟨ascii '9', by decide⟩
def letterD : CChar := ⟨ascii 'd', by decide⟩

/-- The arguments of a call that passes `value`. -/
def oneArgument (value : Word) : Arguments := { word := fun _ => value, string := fun _ => [] }

/-- `"%9d"` is never consumed. -/
theorem width_nine_unread :
    ¬ ∃ rounds r, vxnprintf rounds (oneArgument 0) 16 [percent, nine, letterD] = some r := by
  rintro ⟨rounds, r, ended⟩
  have parsed : parseModifiers {} nine [letterD] = none := by
    rw [parseModifiers, dif_pos (by rfl)]
  have stuck : pieces [percent, nine, letterD] = [.stuck] := pieces_stuck rfl parsed
  rw [vxnprintf_unread (by decide) (by rw [stuck]; rfl)] at ended
  cases ended

def one : CChar := ⟨ascii '1', by decide⟩
def six : CChar := ⟨ascii '6', by decide⟩
def dot : CChar := ⟨ascii '.', by decide⟩

theorem vxnprintf_consumes_exact_sixteen :
    scanInt [one, six] = numberAt [one, six] ∧
      modifier {} dot [one, six] =
        some ({ prec := (numberAt [one, six]).1 }, (numberAt [one, six]).2) ∧
      modifier {} one [six] =
        some ({ width := (numberAt [one, six]).1 }, (numberAt [one, six]).2) := by
  have exact := vxnprintf_consumes_exact (oneArgument 0) 16 [percent, one, six, letterD]
  exact ⟨(exact [one, six] {}).2.1.2 (by decide +kernel),
    ((exact [one, six] {}).2.2.1 dot rfl).2 (by decide +kernel),
    ((exact [six] {}).2.2.2 one (by decide) (by decide)).2 (by decide +kernel)⟩

end Buenos.Lib
