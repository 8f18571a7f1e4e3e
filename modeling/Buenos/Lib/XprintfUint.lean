/-
# Lib.XprintfUint -- print_uint and its digit buffer

`print_uint` with the array `rev` that it fills from the last digit to the padding and then
prints backwards.  An access to `rev` at 11 or beyond, or below 0, stops the call here.

The digits of a number of 32 bits fit for every base from 8 on (`revDigits_fit`), and both paddings
are cut off at 11 characters, so no call is stopped.  What is printed is the text that `uintText`
gives for the callers of `print_uint` (`printUint_text`): blanks, zeros and the digits, which read
back give the number (`readBack_digits`).
-/
import Buenos.Lib.Xprintf
import Buenos.Theory.Prog
import Mathlib.Logic.Function.Basic
import Mathlib.Tactic.IntervalCases

namespace Buenos.Lib.Uint

open Buenos.Theory

set_option autoImplicit false

def FLAG_SMALLS : Word := 0x01
def FLAG_TTY : Word := 0x8000

def isSet (flags flag : Word) : Bool := flags &&& flag ≠ 0

/-- Where characters go: the pointer into the buffer, what was stored, newest first, and what the
TTY has been given. -/
structure Sink where
  buf : Nat
  stores : List (Nat × Byte)
  tty : List Byte
  deriving DecidableEq

/-- `printc(buf++, c, flags)` -/
def printc (flags : Word) (c : Byte) (out : Sink) : Sink :=
  if isSet flags FLAG_TTY then
    { out with buf := out.buf + 1, tty := if c ≠ 0 then out.tty ++ [c] else out.tty }
  else { out with buf := out.buf + 1, stores := (out.buf, c) :: out.stores }

/-- The characters, one after the other. -/
def printAll (flags : Word) (chars : List Byte) (out : Sink) : Sink :=
  chars.foldl (fun out c => printc flags c out) out

/-- The output with these characters more: on the TTY, or in the buffer from its pointer on. -/
def Sink.after (flags : Word) (chars : List Byte) (out : Sink) : Sink where
  buf := out.buf + chars.length
  stores :=
    if isSet flags FLAG_TTY then out.stores
    else ((chars.zipIdx out.buf).map fun store => (store.2, store.1)).reverse ++ out.stores
  tty := if isSet flags FLAG_TTY then out.tty ++ chars else out.tty

/-- The array and the counters of a call, and its output. -/
structure Printing where
  rev : Nat → Byte
  i : Int
  written : Int
  out : Sink

/-- The index is inside `rev[11]`. -/
def indexed : Prog Printing Unit := Prog.assert (fun p => 0 ≤ p.i ∧ p.i < 11) .outOfBounds

/-- `rev[i] = c; i++;` -/
def pushRev (c : Byte) : Prog Printing Unit := do
  indexed
  Prog.modify fun p => { p with rev := Function.update p.rev p.i.toNat c, i := p.i + 1 }

/-- The do-while loop over the digits.  A 32-bit number has no more than 32 of them. -/
def storeDigits (base : Nat) (smalls : Bool) : Nat → Nat → Prog Printing Unit
  | 0, _ => Prog.stop .forever
  | rounds + 1, n => do
      pushRev (digit smalls (n % base))
      if n / base ≠ 0 then storeDigits base smalls rounds (n / base) else pure ()

/-- `while (i < limit)`, for both paddings. -/
def padRev (limit : Int) (c : Byte) : Nat → Prog Printing Unit
  | 0 => Prog.stop .forever
  | rounds + 1 => do
      let i ← Prog.gets Printing.i
      if i < limit then do
        pushRev c
        padRev limit c rounds
      else pure ()

/-- The output loop, which runs down to `rev[0]`. -/
def outputRev (flags size : Word) : Nat → Prog Printing Unit
  | 0 => Prog.stop .forever
  | rounds + 1 => do
      let p ← Prog.gets id
      if 0 ≤ p.i ∧ p.written < size.toInt then do
        indexed
        Prog.modify fun p =>
          { p with
            out := printc flags (p.rev p.i.toNat) p.out
            written := p.written + 1
            i := p.i - 1 }
        outputRev flags size rounds
      else pure ()

/-- The arrays' bounds limit the loops: the twelfth round of a padding loop finds `rev` full. -/
def printUint (size n : Word) (base : Nat) (flags prec width : Word) : Prog Printing Int :=
  if size.toInt ≤ 0 then pure 0
  else do
    Prog.modify fun p => { p with i := 0, written := 0 }
    storeDigits base (isSet flags FLAG_SMALLS) 32 n.toNat
    padRev (min prec.toInt 11) (ascii '0') 12
    padRev (min width.toInt 11) (ascii ' ') 12
    Prog.modify fun p => { p with i := p.i - 1 }
    outputRev flags size 12
    Prog.gets Printing.written

/-! ## What should be printed -/

/-- The value of a digit, in either case. -/
def valueOf (c : Byte) : Option Nat :=
  let n := c.toNat
  if 48 ≤ n ∧ n ≤ 57 then some (n - 48)
  else if 65 ≤ n ∧ n ≤ 70 then some (n - 55)
  else if 97 ≤ n ∧ n ≤ 102 then some (n - 87)
  else none

/-- The number that digits spell, first digit first. -/
def readBack (base : Nat) (chars : List Byte) : Option Nat :=
  chars.foldl (fun value c => do
    let value ← value
    let d ← valueOf c
    if d < base then some (value * base + d) else none) (some 0)

/-- A number in a base, without leading zeros. -/
structure Numeral (base n : Nat) (chars : List Byte) : Prop where
  value : readBack base chars = some n
  nonempty : chars ≠ []
  leading : chars.head? = some (ascii '0') → chars = [ascii '0']

/-- The number of characters that a call asks for. -/
def fieldLength (count : Nat) (prec width : Word) : Int :=
  max (count : Int) (max (min prec.toInt 11) (min width.toInt 11))

/-- Blanks up to the field width, zeros up to the precision, and the digits. -/
def field (chars : List Byte) (prec width : Word) : List Byte :=
  let zeros := (min prec.toInt 11).toNat - chars.length
  let blanks := (min width.toInt 11).toNat - (zeros + chars.length)
  List.replicate blanks (ascii ' ') ++ (List.replicate zeros (ascii '0') ++ chars)

/-! ## The digits -/

section Digits

variable {base : Nat} (smalls : Bool)

theorem digit_inside {n : Nat} (small : n < 16) :
    valueOf (digit smalls n) = some n ∧ (digit smalls n = ascii '0' → n = 0) := by
  cases smalls <;> interval_cases n <;> decide

theorem revDigits_nonzero (positive : 0 < base) (high : base ≤ 16) (rounds n : Nat) :
    0 ∉ revDigits base smalls rounds n := by
  induction rounds generalizing n with
  | zero => simp [revDigits]
  | succ rounds ih =>
      have last := Nat.mod_lt n positive
      rw [revDigits, List.mem_cons, not_or]
      refine ⟨fun zero => ?_, ?_⟩
      · have value := (digit_inside smalls (show n % base < 16 by omega)).1
        rw [← zero] at value
        cases value
      · split
        · exact List.not_mem_nil
        · exact ih _

theorem readBack_append (base : Nat) (chars : List Byte) (c : Byte) :
    readBack base (chars ++ [c]) = (do
      let value ← readBack base chars
      let d ← valueOf c
      if d < base then some (value * base + d) else none) := by
  rw [readBack, List.foldl_append]
  rfl

variable (low : 2 ≤ base) (high : base ≤ 16)

include low high

/-- **The digits read back** give the number. -/
theorem readBack_digits (rounds n : Nat) (enough : n < base ^ rounds) (some_ : 0 < rounds) :
    readBack base (revDigits base smalls rounds n).reverse = some n := by
  induction rounds generalizing n with
  | zero => omega
  | succ rounds ih =>
      have last := Nat.mod_lt n (show 0 < base by omega)
      have value := (digit_inside smalls (show n % base < 16 by omega)).1
      rw [revDigits, List.reverse_cons, readBack_append, value]
      have rest : readBack base (if n / base = 0 then [] else
          revDigits base smalls rounds (n / base)).reverse = some (n / base) := by
        split
        · rename_i zero
          rw [zero]
          rfl
        · rename_i more
          have less : n / base < base ^ rounds := by
            rw [Nat.div_lt_iff_lt_mul (by omega), ← pow_succ]
            exact enough
          refine ih _ less (Nat.pos_of_ne_zero fun zero => more ?_)
          rw [zero, pow_zero] at less
          exact Nat.lt_one_iff.1 less
      rw [rest]
      simp only [Option.bind_eq_bind, Option.bind_some, if_pos last, Option.some.injEq]
      rw [Nat.mul_comm, Nat.div_add_mod]

/-- The first digit is a zero only for the number 0. -/
theorem revDigits_leading (rounds n : Nat) (enough : n < base ^ rounds)
    (zero : (revDigits base smalls rounds n).getLast? = some (ascii '0')) : n = 0 := by
  induction rounds generalizing n with
  | zero => simp [revDigits] at zero
  | succ rounds ih =>
      rw [revDigits] at zero
      by_cases ended : n / base = 0
      · rw [if_pos ended, List.getLast?_singleton, Option.some.injEq] at zero
        have last := Nat.mod_lt n (show 0 < base by omega)
        have digit := (digit_inside smalls (show n % base < 16 by omega)).2 zero
        rw [← Nat.div_add_mod n base, ended, digit, Nat.mul_zero]
      · rw [if_neg ended] at zero
        have less : n / base < base ^ rounds := by
          rw [Nat.div_lt_iff_lt_mul (by omega), ← pow_succ]
          exact enough
        cases more : revDigits base smalls rounds (n / base) with
        | nil =>
            cases rounds with
            | zero =>
                rw [pow_zero] at less
                exact absurd (Nat.lt_one_iff.1 less) ended
            | succ rounds => simp [revDigits] at more
        | cons c rest =>
            rw [more, List.getLast?_cons_cons, ← more] at zero
            exact absurd (ih _ less zero) ended

omit high in
/-- No more digits than the power of the base says. -/
theorem revDigits_fit (rounds n k : Nat) (bound : n < base ^ k) (positive : 0 < k) :
    (revDigits base smalls rounds n).length ≤ k := by
  induction rounds generalizing n k with
  | zero => simp [revDigits]
  | succ rounds ih =>
      rw [revDigits, List.length_cons]
      split
      · exact positive
      · rename_i more
        obtain ⟨k, rfl⟩ : ∃ j, k = j + 1 := ⟨k - 1, by omega⟩
        have less : n / base < base ^ k := by
          rw [Nat.div_lt_iff_lt_mul (by omega), ← pow_succ]
          exact bound
        have again : 0 < k := by
          refine Nat.pos_of_ne_zero fun zero => more ?_
          rw [zero, pow_zero] at less
          exact Nat.lt_one_iff.1 less
        have := ih (n / base) k less again
        omega

theorem numeral_revDigits (n : Word) :
    Numeral base n.toNat (revDigits base smalls 32 n.toNat).reverse := by
  have enough : n.toNat < base ^ 32 := n.isLt.trans_le (Nat.pow_le_pow_left low 32)
  refine ⟨readBack_digits smalls low high 32 _ enough (by decide), ?_, fun zero => ?_⟩
  · rw [revDigits, ne_eq, List.reverse_eq_nil_iff]
    exact List.cons_ne_nil _ _
  · rw [List.head?_reverse] at zero
    rw [revDigits_leading smalls low high 32 _ enough zero, revDigits, Nat.zero_mod, Nat.zero_div, if_pos rfl]
    cases smalls <;> rfl

end Digits

/-! ## The array -/

/-- The call has stored these characters, and printed nothing yet. -/
structure Filled (out : Sink) (chars : List Byte) (p : Printing) : Prop where
  i : p.i = chars.length
  rev : (List.range chars.length).map p.rev = chars
  written : p.written = 0
  out : p.out = out

section Loops

variable {out : Sink} {chars : List Byte} {p : Printing}

/-- There is room for eleven characters. -/
theorem pushRev_filled (filled : Filled out chars p) (room : chars.length < 11) (c : Byte) :
    (pushRev c).Ends p fun _ t => Filled out (chars ++ [c]) t := by
  have inside : 0 ≤ p.i ∧ p.i < 11 := by
    rw [filled.i]
    omega
  refine ⟨(), { p with rev := Function.update p.rev p.i.toNat c, i := p.i + 1 }, ?_, ?_, ?_,
    filled.written, filled.out⟩
  · rw [pushRev, indexed, Prog.bind_assert_apply, if_pos (by simpa using inside)]
    rfl
  · rw [filled.i, List.length_append, List.length_singleton]
    rfl
  · have before : (List.range chars.length).map (Function.update p.rev chars.length c) = chars := by
      refine Eq.trans (List.map_congr_left fun k less => ?_) filled.rev
      rw [List.mem_range] at less
      exact Function.update_of_ne (Nat.ne_of_lt less) _ _
    rw [List.length_append, List.length_singleton, List.range_succ, List.map_append, filled.i,
      Int.toNat_natCast, before, List.map_singleton]
    exact congrArg (fun last => chars ++ [last]) (Function.update_self ..)

/-- **The digits fit**: the loop stores them all. -/
theorem storeDigits_filled {base : Nat} {smalls : Bool} (rounds n : Nat)
    (enough : n < base ^ rounds) (some_ : 0 < rounds) (filled : Filled out chars p)
    (room : chars.length + (revDigits base smalls rounds n).length ≤ 11) (positive : 0 < base) :
    (storeDigits base smalls rounds n).Ends p fun _ t =>
      Filled out (chars ++ revDigits base smalls rounds n) t := by
  induction rounds generalizing n chars p with
  | zero => omega
  | succ rounds ih =>
      rw [revDigits, List.length_cons] at room
      rw [storeDigits, revDigits]
      refine (pushRev_filled filled (by omega) _).bind fun _ t stored => ?_
      by_cases ended : n / base = 0
      · rw [if_neg (not_not.2 ended), if_pos ended]
        exact ⟨(), t, rfl, stored⟩
      · rw [if_neg ended] at room
        have less : n / base < base ^ rounds := by
          rw [Nat.div_lt_iff_lt_mul positive, ← pow_succ]
          exact enough
        have again : 0 < rounds := by
          refine Nat.pos_of_ne_zero fun zero => ended ?_
          rw [zero, pow_zero] at less
          exact Nat.lt_one_iff.1 less
        have rest := ih (n / base) less again stored (by simp only [List.length_append, List.length_singleton]; omega)
        rw [if_pos ended, if_neg ended]
        rw [List.append_assoc] at rest
        exact rest

/-- A padding ends at its limit, or where the array does. -/
theorem padRev_filled {limit : Int} (small : limit ≤ 11) (c : Byte) (rounds : Nat)
    (enough : 11 < chars.length + rounds) (filled : Filled out chars p) (inside : chars.length ≤ 11) :
    (padRev limit c rounds).Ends p fun _ t => Filled out (padTo limit c chars) t := by
  induction rounds generalizing chars p with
  | zero => omega
  | succ rounds ih =>
      rw [padRev, Prog.Ends, Prog.bind_gets_apply]
      by_cases more : p.i < limit
      · have room : (chars.length : Int) < limit := by
          rw [← filled.i]
          exact more
        have padded : padTo limit c chars = padTo limit c (chars ++ [c]) := by
          obtain ⟨k, count⟩ : ∃ k, limit.toNat - chars.length = k + 1 :=
            ⟨limit.toNat - chars.length - 1, by omega⟩
          rw [padTo, padTo, List.length_append, List.length_singleton, count,
            show limit.toNat - (chars.length + 1) = k by omega, List.append_assoc]
          rfl
        rw [if_pos more, padded]
        refine (pushRev_filled filled (by omega) c).bind fun _ t stored => ?_
        have length : (chars ++ [c]).length = chars.length + 1 := by simp
        exact ih (by omega) stored (by omega)
      · have room : ¬ (chars.length : Int) < limit := by
          rw [← filled.i]
          exact more
        rw [if_neg more, padTo, Nat.sub_eq_zero_of_le (by omega), List.replicate_zero, List.append_nil]
        exact ⟨(), p, rfl, filled⟩

/-- The characters that are left to print, `rev[k - 1]` first, as far as the size allows. -/
theorem outputRev_returned (flags size : Word) (rounds k : Nat) (enough : k < rounds)
    (inside : k ≤ 11) (index : p.i = (k : Int) - 1) (room : p.written ≤ size.toInt) :
    (outputRev flags size rounds).Ends p fun _ t =>
      t.out = printAll flags
        (((List.range k).map p.rev).reverse.take (size.toInt - p.written).toNat) p.out ∧
      t.written = p.written + min (k : Int) (size.toInt - p.written) := by
  induction rounds generalizing k p with
  | zero => omega
  | succ rounds ih =>
      rw [outputRev, Prog.Ends, Prog.bind_gets_apply]
      cases k with
      | zero =>
          rw [if_neg (by simp only [id_eq, index]; omega)]
          refine ⟨(), p, rfl, ?_, by omega⟩
          simp [printAll]
      | succ k =>
          by_cases more : p.written < size.toInt
          · have chosen : 0 ≤ (id p).i ∧ (id p).written < size.toInt := ⟨by simp only [id_eq, index]; omega, more⟩
            have bounds : (decide (0 ≤ p.i ∧ p.i < 11)) = true := by
              rw [decide_eq_true_eq, index]
              omega
            have place : p.i.toNat = k := by omega
            rw [if_pos chosen, indexed, Prog.bind_assert_apply, if_pos bounds, Prog.bind_modify_apply]
            obtain ⟨⟨⟩, t, ran, printed, count⟩ := ih
              (p := { p with
                out := printc flags (p.rev p.i.toNat) p.out
                written := p.written + 1
                i := p.i - 1 })
              k (by omega) (by omega) (by simp only [index]; omega) (by simp only; omega)
            refine ⟨(), t, ran, ?_, by simp only at count; omega⟩
            obtain ⟨left, here⟩ : ∃ left, (size.toInt - p.written).toNat = left + 1 :=
              ⟨(size.toInt - p.written).toNat - 1, by omega⟩
            simp only at printed
            rw [printed, here, show (size.toInt - (p.written + 1)).toNat = left by omega, place,
              List.range_succ, List.map_append, List.reverse_append, List.map_singleton, List.reverse_singleton,
              List.singleton_append, List.take_succ_cons]
            rfl
          · rw [if_neg fun chosen => more chosen.2]
            refine ⟨(), p, rfl, ?_, by omega⟩
            rw [Int.toNat_of_nonpos (by omega), List.take_zero]
            rfl

end Loops

/-! ## The call -/

section Call

variable (size n : Word) {base : Nat} (flags prec width : Word) (p : Printing)

theorem padTo_length (limit : Int) (c : Byte) (chars : List Byte) :
    (padTo limit c chars).length = max chars.length limit.toNat := by
  rw [padTo, List.length_append, List.length_replicate]
  omega

/-- What is in `rev`, read backwards. -/
theorem uintText_field (smalls : Bool) :
    uintText n base smalls prec width = field (revDigits base smalls 32 n.toNat).reverse prec width := by
  rw [uintText, field]
  simp only [padTo, List.reverse_append, List.reverse_replicate, List.length_append,
    List.length_replicate, List.length_reverse, Nat.add_comm]

theorem field_length (chars : List Byte) (nonempty : chars ≠ []) :
    ((field chars prec width).length : Int) = fieldLength chars.length prec width := by
  have positive := List.length_pos_iff.2 nonempty
  rw [field, fieldLength]
  simp only [List.length_append, List.length_replicate]
  omega

theorem field_nonzero {chars : List Byte} (nonzero : 0 ∉ chars) : 0 ∉ field chars prec width := by
  have blank : (0 : Byte) ≠ ascii ' ' := by decide
  have zero : (0 : Byte) ≠ ascii '0' := by decide
  simp only [field, List.mem_append, List.mem_replicate, not_or]
  exact ⟨fun h => blank h.2, fun h => zero h.2, nonzero⟩

/-- Characters that are not zero are all printed. -/
theorem printAll_after {chars : List Byte} (nonzero : 0 ∉ chars) (out : Sink) :
    printAll flags chars out = out.after flags chars := by
  induction chars generalizing out with
  | nil => simp [printAll, Sink.after]
  | cons c chars ih =>
      rw [List.mem_cons, not_or] at nonzero
      change printAll flags chars (printc flags c out) = _
      rw [ih nonzero.2, printc]
      by_cases tty : isSet flags FLAG_TTY = true
      · have char : c ≠ 0#8 := Ne.symm nonzero.1
        simp [Sink.after, tty, char, Nat.add_assoc, Nat.add_comm 1]
      · simp [Sink.after, tty, List.zipIdx_cons, Nat.add_assoc, Nat.add_comm 1]

/-- **No call is stopped**, and what it prints is the text of the model without the array. -/
theorem printUint_text (low : 8 ≤ base) :
    (printUint size n base flags prec width).Ends p fun result t =>
      t.out = printAll flags (Lib.printUint size n base (isSet flags FLAG_SMALLS) prec width) p.out ∧
        result = (Lib.printUint size n base (isSet flags FLAG_SMALLS) prec width).length := by
  rw [printUint, Lib.printUint]
  by_cases none_ : size.toInt ≤ 0
  · rw [if_pos none_, if_pos none_]
    exact ⟨0, p, rfl, rfl, rfl⟩
  · rw [if_neg none_, if_neg none_]
    have bound : n.toNat < base ^ 11 :=
      n.isLt.trans_le (Nat.le_trans (by decide) (Nat.pow_le_pow_left low 11))
    have enough : n.toNat < base ^ 32 :=
      bound.trans_le (Nat.pow_le_pow_right (by omega) (by decide))
    have fit := revDigits_fit (isSet flags FLAG_SMALLS) (show 2 ≤ base by omega) 32 n.toNat 11 bound (by decide)
    have start : Filled p.out [] { p with i := 0, written := 0 } := ⟨rfl, rfl, rfl, rfl⟩
    rw [Prog.Ends, Prog.bind_modify_apply]
    refine (storeDigits_filled 32 n.toNat enough (by decide) start (by simpa using fit) (by omega)).bind
      fun _ s stored => ?_
    rw [List.nil_append] at stored
    refine (padRev_filled (by omega) _ 12 (by omega) stored fit).bind fun _ s padded => ?_
    have inside : (padTo (min prec.toInt 11) (ascii '0')
        (revDigits base (isSet flags FLAG_SMALLS) 32 n.toNat)).length ≤ 11 := by
      rw [padTo_length]
      omega
    refine (padRev_filled (by omega) _ 12 (by omega) padded inside).bind fun _ s filled => ?_
    -- all that is stored is read once, from the end on
    have inside := (padTo_length (min width.toInt 11) (ascii ' ') _).trans_le (max_le inside (by omega))
    have nonneg : s.written ≤ size.toInt := by
      rw [filled.written]
      omega
    have ended := outputRev_returned (p := { s with i := s.i - 1 }) flags size 12 _
      (Nat.lt_succ_of_le inside) inside (congrArg (fun i => i - 1) filled.i) nonneg
    rw [Prog.Ends, Prog.bind_modify_apply]
    refine ended.bind fun _ t printed => ?_
    simp only [filled.rev, filled.written, filled.out, Int.sub_zero] at printed
    refine ⟨t.written, t, rfl, printed.1, ?_⟩
    rw [printed.2, List.length_take, uintText, List.length_reverse]
    omega

/-- **`print_uint`** stays inside its array and writes what fits of blanks, zeros and the digits of
the number. -/
theorem printUint_prints (known : base = 8 ∨ base = 10 ∨ base = 16) :
    ∃ digits, Numeral base n.toNat digits ∧
      ((field digits prec width).length : Int) = fieldLength digits.length prec width ∧
      (printUint size n base flags prec width).Ends p fun result t =>
        result = min (max size.toInt 0) (fieldLength digits.length prec width) ∧
          t.out = p.out.after flags ((field digits prec width).take result.toNat) := by
  have low : 2 ≤ base := by omega
  have high : base ≤ 16 := by omega
  have numeral := numeral_revDigits (isSet flags FLAG_SMALLS) low high n
  have length := field_length prec width _ numeral.nonempty
  refine ⟨_, numeral, length, ?_⟩
  refine (printUint_text size n flags prec width p (by omega)).mono fun result t printed => ?_
  obtain ⟨out, count⟩ := printed
  have text : Lib.printUint size n base (isSet flags FLAG_SMALLS) prec width =
      (field (revDigits base (isSet flags FLAG_SMALLS) 32 n.toNat).reverse prec width).take
        size.toInt.toNat := by
    rw [Lib.printUint, uintText_field]
    split
    · rw [Int.toNat_of_nonpos ‹_›, List.take_zero]
    · rfl
  rw [text] at out count
  rw [List.length_take] at count
  refine ⟨by rw [← length]; omega, ?_⟩
  have nonzero : 0 ∉ (revDigits base (isSet flags FLAG_SMALLS) 32 n.toNat).reverse := fun zero =>
    revDigits_nonzero _ (by omega) high 32 n.toNat (List.mem_reverse.1 zero)
  rw [out, printAll_after flags fun zero => field_nonzero prec width nonzero (List.mem_of_mem_take zero), count,
    Int.toNat_natCast, ← List.take_eq_take_min]

/-- The greatest number has eleven octal digits, which are cut off by a size of five. -/
theorem printUint_octal :
    ∃ digits, Numeral 8 0xffffffff digits ∧
      ((field digits 0 20).length : Int) = fieldLength digits.length 0 20 ∧
      (printUint 5 0xffffffff 8 0 0 20).Ends
        { rev := fun _ => 0, i := 0, written := 0, out := { buf := 0, stores := [], tty := [] } }
        fun result t =>
          result = min (max 5 0) (fieldLength digits.length 0 20) ∧
            t.out = Sink.after 0 ((field digits 0 20).take result.toNat)
              { buf := 0, stores := [], tty := [] } :=
  printUint_prints 5 0xffffffff 0 0 20 _ (.inl rfl)

end Call

end Buenos.Lib.Uint
