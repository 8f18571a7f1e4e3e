/-
# Lib.Atoi -- integers read back

`atoi` of lib/libc.c, whose sign is applied digit by digit.  Its value is the sign times the number
that the digits spell (`atoiFrom_eq`), in 32-bit arithmetic, so the most negative number needs no
case of its own: `print_uint` prints `-n`, which is `n` again, and the sign brings back `n`.
-/
import Buenos.Lib.XprintfBounds
import Buenos.Lib.XprintfUint
import Mathlib.Data.BitVec
import Mathlib.Tactic.IntervalCases
import Mathlib.Tactic.Ring

namespace Buenos.Lib

open Buenos.Theory

set_option autoImplicit false

def isSpace (c : CChar) : Bool :=
  c.val = ascii ' ' || c.val = ascii '\t' || c.val = ascii '\r' || c.val = ascii '\n'

/-- The loop over the digits. -/
def atoiFrom (sign value : Word) : Name → Word
  | [] => value
  | c :: s =>
      if ascii '0' ≤ c.val ∧ c.val ≤ ascii '9' then
        atoiFrom sign (10 * value + sign * (c.val - ascii '0').setWidth 32) s
      else value

def atoi (s : Name) : Word :=
  match s.dropWhile isSpace with
  | [] => 0
  | c :: s =>
      if c.val = ascii '-' then atoiFrom (-1) 0 s
      else if c.val = ascii '+' then atoiFrom 1 0 s
      else atoiFrom 1 0 (c :: s)

/-- The digits of a string give its value, with the sign. -/
theorem atoiFrom_eq (sign : Word) (value : Nat) (s : Name) :
    atoiFrom sign (sign * BitVec.ofNat 32 value) s =
      sign * BitVec.ofNat 32
        ((s.takeWhile isDigit).foldl (fun value c => 10 * value + digitValue c) value) := by
  induction s generalizing value with
  | nil => rfl
  | cons c s ih =>
      by_cases range : ascii '0' ≤ c.val ∧ c.val ≤ ascii '9'
      · have holds : isDigit c = true := by simp [isDigit, range]
        have next : 10 * (sign * BitVec.ofNat 32 value) + sign * (c.val - ascii '0').setWidth 32 =
            sign * BitVec.ofNat 32 (10 * value + digitValue c) := by
          rw [← digit_step value range.1]
          ring
        rw [atoiFrom, if_pos range, next, ih]
        simp [holds]
      · have fails : isDigit c = false := by simpa [isDigit] using range
        rw [atoiFrom, if_neg range]
        simp [fails]

theorem atoiFrom_zero (sign : Word) (s : Name) :
    atoiFrom sign 0 s = sign * BitVec.ofNat 32 (decimalValue (s.takeWhile isDigit)) := by
  have eq := atoiFrom_eq sign 0 s
  rwa [show sign * BitVec.ofNat 32 0 = 0 by simp] at eq

/-! ## The digits that are printed -/

/-- A decimal digit as a character. -/
def digitChar (n : Nat) : CChar :=
  if nonzero : digit false n ≠ 0 then ⟨digit false n, nonzero⟩ else ⟨ascii '0', by decide⟩

/-- The decimal digits of a number, first digit first. -/
def decimal : Nat → Nat → Name
  | 0, _ => []
  | rounds + 1, n => (if n / 10 = 0 then [] else decimal rounds (n / 10)) ++ [digitChar (n % 10)]

theorem digitChar_val {n : Nat} (small : n < 10) : (digitChar n).val = digit false n := by
  interval_cases n <;> decide

theorem digitValue_digitChar {n : Nat} (small : n < 10) : digitValue (digitChar n) = n := by
  interval_cases n <;> decide

theorem isDigit_digitChar {n : Nat} (small : n < 10) : isDigit (digitChar n) = true := by
  interval_cases n <;> decide

theorem decimal_bytes (rounds n : Nat) : (decimal rounds n).bytes = (revDigits 10 false rounds n).reverse := by
  induction rounds generalizing n with
  | zero => rfl
  | succ rounds ih =>
      rw [decimal, revDigits, List.reverse_cons, Name.bytes, List.map_append, List.map_singleton,
        digitChar_val (Nat.mod_lt _ (by decide))]
      congr 1
      split
      · rfl
      · exact ih _

theorem decimal_isDigit (rounds n : Nat) : ∀ c ∈ decimal rounds n, isDigit c = true := by
  induction rounds generalizing n with
  | zero => simp [decimal]
  | succ rounds ih =>
      intro c inside
      rw [decimal, List.mem_append, List.mem_singleton] at inside
      rcases inside with earlier | rfl
      · split at earlier
        · simp at earlier
        · exact ih _ c earlier
      · exact isDigit_digitChar (Nat.mod_lt _ (by decide))

theorem decimalValue_decimal (rounds n : Nat) (enough : n < 10 ^ rounds) :
    decimalValue (decimal rounds n) = n := by
  induction rounds generalizing n with
  | zero =>
      obtain rfl : n = 0 := by simpa using enough
      rfl
  | succ rounds ih =>
      have last := digitValue_digitChar (Nat.mod_lt n (by decide : 0 < 10))
      rw [decimal, decimalValue, List.foldl_append, List.foldl_cons, List.foldl_nil, last]
      split
      · simp only [List.foldl_nil]
        omega
      · have less : n / 10 < 10 ^ rounds := by
          rw [Nat.div_lt_iff_lt_mul (by decide), ← pow_succ]
          exact enough
        have rest := ih (n / 10) less
        rw [decimalValue] at rest
        rw [rest]
        omega

theorem number_signed (mods : Modifiers) (n : Word) :
    number mods n .signed = (decimal 32 (magnitude n).toNat).bytes := by
  rw [decimal_bytes]
  simp [number, uintText, padTo]

/-! ## Printing and reading back -/

def minus : CChar := ⟨ascii '-', by decide⟩

/-- What `%d` prints for a number. -/
def printedName (n : Word) : Name :=
  (if n.toInt < 0 then [minus] else []) ++ decimal 32 (magnitude n).toNat

theorem printedName_bytes (n : Word) :
    (printedName n).bytes = signs {} n ++ number {} n .signed := by
  rw [number_signed, printedName, signs, Name.bytes, Name.bytes, List.map_append]
  split <;> rfl

theorem printedName_length (n : Word) : (printedName n).length ≤ 11 := by
  have bound : (magnitude n).toNat < 10 ^ 10 := (magnitude n).isLt.trans (by decide)
  have digits := Uint.revDigits_fit false (by decide) 32 _ 10 bound (by decide)
  rw [← List.length_reverse, ← decimal_bytes, Name.bytes, List.length_map] at digits
  rw [printedName, List.length_append]
  split <;> simp <;> omega

theorem isDigit_first (c : CChar) (digit : isDigit c = true) :
    isSpace c = false ∧ c.val ≠ ascii '-' ∧ c.val ≠ ascii '+' := by
  unfold isDigit at digit
  unfold isSpace
  generalize c.val = b at digit ⊢
  revert b
  decide +kernel

theorem takeWhile_digits {digits suffix : Name} (all : ∀ c ∈ digits, isDigit c = true)
    (stops : ∀ c, suffix.head? = some c → isDigit c = false) :
    (digits ++ suffix).takeWhile isDigit = digits := by
  have none : suffix.takeWhile isDigit = [] := by
    cases suffix with
    | nil => rfl
    | cons c suffix => simp [stops c rfl]
  rw [List.takeWhile_append_of_pos all, none, List.append_nil]

/-- Leading whitespace is skipped. -/
theorem atoi_spaces {spaces : Name} (blank : ∀ c ∈ spaces, isSpace c = true) (s : Name) :
    atoi (spaces ++ s) = atoi s := by
  rw [atoi, List.dropWhile_append_of_pos blank, atoi]

theorem atoi_digits {digits suffix : Name} (some_ : digits ≠ [])
    (all : ∀ c ∈ digits, isDigit c = true)
    (stops : ∀ c, suffix.head? = some c → isDigit c = false) :
    atoi (digits ++ suffix) = BitVec.ofNat 32 (decimalValue digits) := by
  obtain ⟨c, rest, rfl⟩ := List.exists_cons_of_ne_nil some_
  have first := isDigit_first c (all c (by simp))
  have read := atoiFrom_zero 1 (c :: rest ++ suffix)
  rw [takeWhile_digits all stops, one_mul] at read
  rw [List.cons_append] at read ⊢
  rw [atoi, List.dropWhile_cons, if_neg (by simp [first])]
  simp only [first, if_false, read]

theorem atoi_minus {digits suffix : Name} (all : ∀ c ∈ digits, isDigit c = true)
    (stops : ∀ c, suffix.head? = some c → isDigit c = false) :
    atoi (minus :: digits ++ suffix) = -BitVec.ofNat 32 (decimalValue digits) := by
  have read := atoiFrom_zero (-1) (digits ++ suffix)
  rw [takeWhile_digits all stops, neg_one_mul] at read
  have kept : isSpace minus = false := by decide
  have is : minus.val = ascii '-' := rfl
  rw [List.cons_append, atoi, List.dropWhile_cons, if_neg (by simp [kept])]
  simp only [is, if_true, read]

theorem atoi_printedName (n : Word) {suffix : Name}
    (stops : ∀ c, suffix.head? = some c → isDigit c = false) :
    atoi (printedName n ++ suffix) = n := by
  have value := decimalValue_decimal 32 (magnitude n).toNat
    ((magnitude n).isLt.trans (by decide))
  have all := decimal_isDigit 32 (magnitude n).toNat
  have back : BitVec.ofNat 32 (magnitude n).toNat = magnitude n := by simp
  rw [printedName]
  by_cases negative : n.toInt < 0
  · rw [if_pos negative, List.singleton_append, atoi_minus all stops, value, back, magnitude,
      if_pos negative, neg_neg]
  · have some_ : decimal 32 (magnitude n).toNat ≠ [] := by simp [decimal]
    rw [if_neg negative, List.nil_append, atoi_digits some_ all stops, value, back, magnitude,
      if_neg negative]

theorem pieces_signed : pieces [percent, letterD] = [.conversion {} letterD] := by
  have parsed : parseModifiers {} letterD [] = some ({}, some letterD, []) := by
    rw [parseModifiers, dif_neg (by decide)]
    rfl
  rw [pieces_conversion rfl parsed, pieces]

/-- What `snprintf(buf, size, "%d", n)` leaves in its buffer. -/
theorem snprintf_signed (args : Arguments) {size : Word} (room : 12 ≤ size.toInt) :
    (∃ rounds r, snprintf rounds args size [percent, letterD] = some r) ∧
      ∀ rounds r, snprintf rounds args size [percent, letterD] = some r → ∀ before,
        cstring ((List.range size.toNat).map (r.2.memory before)) = printedName (args.word 0) := by
  have positive : 0 < size.toInt := by omega
  have whole := size_toInt positive
  have fits : Fits args size.toNat (pieces [percent, letterD]) 0 0 := by
    rw [pieces_signed]
    exact fun _ => ⟨by decide, fun double => absurd double.1.2.2 (by decide), trivial⟩
  obtain ⟨ended, bounded⟩ := vxnprintf_fits positive fits
  refine ⟨ended, fun rounds r ran before => ?_⟩
  have output : wholeText args (pieces [percent, letterD]) [] 0 =
      (printedName (args.word 0)).bytes := by
    rw [pieces_signed, printedName_bytes]
    rfl
  have length : (printedName (args.word 0)).bytes.length ≤ 11 := by
    rw [Name.bytes, List.length_map]
    exact printedName_length _
  have memory := (bounded rounds r ran).2
  rw [output, if_pos (by omega)] at memory
  obtain ⟨more, enough⟩ := Nat.exists_eq_add_of_le
    (show (printedName (args.word 0)).bytes.length + 1 ≤ size.toNat by omega)
  rw [enough, List.range_add, List.map_append, memory.2 before, List.append_assoc,
    List.singleton_append]
  exact cstring_append _ _

/-- **Printing and parsing are inverse**: whatever whitespace stands before the printed number, and
whatever but a digit after it, `atoi` gives the number back. -/
theorem atoi_snprintf (args : Arguments) (size : Word) (room : 12 ≤ size.toInt)
    (spaces suffix : Name) (blank : ∀ c ∈ spaces, isSpace c = true)
    (stops : ∀ c, suffix.head? = some c → isDigit c = false) :
    (∃ rounds r, snprintf rounds args size [percent, letterD] = some r) ∧
      ∀ rounds r, snprintf rounds args size [percent, letterD] = some r → ∀ before,
        atoi (spaces ++ cstring ((List.range size.toNat).map (r.2.memory before)) ++ suffix) =
          args.word 0 := by
  obtain ⟨ended, left⟩ := snprintf_signed args room
  refine ⟨ended, fun rounds r ran before => ?_⟩
  rw [left rounds r ran before, List.append_assoc, atoi_spaces blank, atoi_printedName _ stops]

def blank : CChar := ⟨ascii ' ', by decide⟩

/-- The most negative number in the smallest buffer, between a blank and a letter. -/
theorem atoi_snprintf_minimum :
    (∃ rounds r, snprintf rounds (oneArgument 0x80000000) 12 [percent, letterD] = some r) ∧
      ∀ rounds r, snprintf rounds (oneArgument 0x80000000) 12 [percent, letterD] = some r →
        ∀ before,
          atoi ([blank] ++ cstring ((List.range (12 : Word).toNat).map (r.2.memory before)) ++
            [letterD]) = 0x80000000 :=
  atoi_snprintf (oneArgument 0x80000000) 12 (by decide) [blank] [letterD] (by decide +kernel)
    (by
      intro c first
      obtain rfl : letterD = c := Option.some.inj first
      decide)

end Buenos.Lib
