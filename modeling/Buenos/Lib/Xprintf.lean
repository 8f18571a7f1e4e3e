/-
# Lib.Xprintf -- formatted output

lib/xprintf.c for output into a buffer; tests/lib.c has the same text for userland programs.  An
`int` is a `Word` read with its sign.  `Output` is what a call has done to its buffer so far:
`buf` is the offset of the pointer from the start of the buffer, and `stores` are the bytes
stored, newest first, each with its offset.

The arguments are words; a `%s` argument is the address of a string.  A format is the characters
before its terminator, so the end of the list is the `'\0'` at which the source breaks.

`vxnprintf` is bounded in the number of rounds its loops may take, and gives `none` when they did
not end.
-/
import Buenos.Lib.Bitmap
import Buenos.Lib.Libc
import Buenos.Theory.Loop

namespace Buenos.Lib

open Buenos.Theory

set_option autoImplicit false

def ascii (c : Char) : Byte := BitVec.ofNat 8 c.toNat

/-- Flags and modifiers of one conversion. -/
structure Modifiers where
  alt : Bool := false
  zeropad : Bool := false
  left : Bool := false
  space : Bool := false
  sign : Bool := false
  width : Word := -1
  prec : Word := -1
deriving DecidableEq

/-- The argument list: its words, and the string at each address. -/
structure Arguments where
  word : Nat → Word
  string : Word → Name

structure Output where
  buf : Nat
  stores : List (Nat × Byte)
  written : Word
  /-- The index of the next argument. -/
  ap : Nat
deriving DecidableEq

/-- `printc(buf++, c, flags)`. -/
def printc (c : Byte) (out : Output) : Output :=
  { out with buf := out.buf + 1, stores := (out.buf, c) :: out.stores }

/-- `printc(buf++, c, flags); written++;`. -/
def put (c : Byte) (out : Output) : Output :=
  { printc c out with written := out.written + 1 }

def putAll (chars : List Byte) (out : Output) : Output :=
  chars.foldl (fun out c => put c out) out

def digits : List Char := "0123456789ABCDEF0123456789abcdef".toList

def digit (smalls : Bool) (n : Nat) : Byte :=
  ascii (digits.getD (if smalls then 16 + n else n) '0')

/-- The digits of `n`, last digit first: the do-while loop that fills `rev`.  A 32-bit number has
no more than 32 of them. -/
def revDigits (base : Nat) (smalls : Bool) : Nat → Nat → List Byte
  | 0, _ => []
  | rounds + 1, n =>
      digit smalls (n % base) :: if n / base = 0 then [] else revDigits base smalls rounds (n / base)

/-- `while (i < limit) rev[i++] = c`. -/
def padTo (limit : Int) (c : Byte) (rev : List Byte) : List Byte :=
  rev ++ List.replicate (limit.toNat - rev.length) c

/-- The characters `print_uint` has in `rev`, in the order it prints them. -/
def uintText (n : Word) (base : Nat) (smalls : Bool) (prec width : Word) : List Byte :=
  let rev := revDigits base smalls 32 n.toNat
  let rev := padTo (min prec.toInt 11) (ascii '0') rev
  let rev := padTo (min width.toInt 11) (ascii ' ') rev
  rev.reverse

/-- `print_uint`: the characters it prints. -/
def printUint (size n : Word) (base : Nat) (smalls : Bool) (prec width : Word) : List Byte :=
  if size.toInt ≤ 0 then [] else (uintText n base smalls prec width).take size.toInt.toNat

/-- The loop of `scan_int`: the value, and the string after the number. -/
def scanFrom (value : Word) : Name → Word × Name
  | [] => (value, [])
  | c :: s =>
      if ascii '0' < c.val ∧ c.val < ascii '9' then
        scanFrom (10 * value + (c.val - ascii '0').setWidth 32) s
      else (value, c :: s)

def scanInt (s : Name) : Word × Name := scanFrom 0 s

/-- The switch over flags and modifiers: what is set, and the format after it.  `none` is the
default branch, where no more modifiers are scanned. -/
def modifier (mods : Modifiers) (ch : CChar) (fmt : Name) : Option (Modifiers × Name) :=
  if ch.val = ascii '#' then some ({ mods with alt := true }, fmt)
  else if ch.val = ascii '0' then some ({ mods with zeropad := true }, fmt)
  else if ch.val = ascii ' ' then some ({ mods with space := true }, fmt)
  else if ch.val = ascii '+' then some ({ mods with sign := true }, fmt)
  else if ch.val = ascii '-' then some ({ mods with left := true }, fmt)
  else if ch.val = ascii '.' then
    some ({ mods with prec := (scanInt fmt).1 }, (scanInt fmt).2)
  else if ascii '1' ≤ ch.val ∧ ch.val ≤ ascii '9' then
    -- scan_int(fmt-1, &fmt): the number starts with the character just read
    some ({ mods with width := (scanInt (ch :: fmt)).1 }, (scanInt (ch :: fmt)).2)
  else none

/-- A round of the modifier loop.  The loop leaves with the character after the modifiers, or with
nothing if the format ended among them. -/
def modifierRound :
    Modifiers × CChar × Name →
      Option ((Modifiers × CChar × Name) ⊕ (Modifiers × Option CChar × Name))
  | (mods, ch, fmt) =>
      match modifier mods ch fmt with
      | none => some (.inr (mods, some ch, fmt))
      | some (mods, []) => some (.inr (mods, none, []))
      | some (mods, ch :: fmt) => some (.inl (mods, ch, fmt))

def readModifiers (rounds : Nat) (mods : Modifiers) (ch : CChar) (fmt : Name) :
    Option (Modifiers × Option CChar × Name) :=
  loop modifierRound rounds (mods, ch, fmt)

/-- `va_arg`. -/
def nextArg (args : Arguments) (out : Output) : Word × Output :=
  (args.word out.ap, { out with ap := out.ap + 1 })

/-- `%d` and `%i`. -/
def convertSigned (args : Arguments) (size : Word) (mods : Modifiers) (out : Output) : Output :=
  let (arg, out) := nextArg args out
  let (arg, out) := if arg.toInt < 0 then (-arg, put (ascii '-') out) else (arg, out)
  let out :=
    if mods.sign then put (ascii '+') out
    else if mods.space then put (ascii ' ') out
    else out
  putAll (printUint (size - out.written) arg 10 false 0 0) out

/-- `if (prec < width && (flags & FLAG_ZEROPAD)) prec = width`. -/
def paddedPrec (mods : Modifiers) (width : Word) : Word :=
  if mods.prec.toInt < width.toInt ∧ mods.zeropad then width else mods.prec

/-- `%o` and `%u`. -/
def convertUnsigned (args : Arguments) (size : Word) (mods : Modifiers) (base : Nat)
    (out : Output) : Output :=
  let prec := paddedPrec mods mods.width
  let (arg, out) := nextArg args out
  putAll (printUint (size - out.written) arg base false prec mods.width) out

/-- `%p`, `%x` and `%X`. -/
def convertHex (args : Arguments) (size : Word) (mods : Modifiers) (alt smalls : Bool)
    (out : Output) : Output :=
  let (width, out) :=
    if alt then
      let out := put (ascii '0') out
      let out := if out.written.toInt < size.toInt then put (ascii 'x') out else out
      (mods.width - 2, out)
    else (mods.width, out)
  let prec := paddedPrec mods width
  let (arg, out) := nextArg args out
  putAll (printUint (size - out.written) arg 16 smalls prec width) out

/-- `%s`: `while (written < w && *s != '\0')`. -/
def convertString (args : Arguments) (size : Word) (mods : Modifiers) (out : Output) : Output :=
  let (arg, out) := nextArg args out
  let w :=
    if mods.prec ≠ -1 ∧ (out.written + mods.prec).toInt < size.toInt then out.written + mods.prec
    else size
  putAll ((args.string arg).bytes.take (w.toInt - out.written.toInt).toNat) out

/-- The switch over the type of the argument. -/
def convert (args : Arguments) (size : Word) (mods : Modifiers) (ch : CChar) (out : Output) :
    Output :=
  if ch.val = ascii 'i' ∨ ch.val = ascii 'd' then convertSigned args size mods out
  else if ch.val = ascii 'o' then convertUnsigned args size mods 8 out
  else if ch.val = ascii 'u' then convertUnsigned args size mods 10 out
  else if ch.val = ascii 'p' then convertHex args size mods true true out
  else if ch.val = ascii 'x' then convertHex args size mods mods.alt true out
  else if ch.val = ascii 'X' then convertHex args size mods mods.alt false out
  else if ch.val = ascii 'c' then
    let (arg, out) := nextArg args out
    put (arg.setWidth 8) out
  else if ch.val = ascii 's' then convertString args size mods out
  else put ch.val out

/-- A round of the loop over the format. -/
def formatRound (args : Arguments) (size : Word) (rounds : Nat) :
    Name × Output → Option ((Name × Output) ⊕ Output)
  | (fmt, out) =>
      if ¬ out.written.toInt < size.toInt then some (.inr out)
      else
        match fmt with
        | [] => some (.inr out)
        | ch :: fmt =>
            if ch.val ≠ ascii '%' then some (.inl (fmt, put ch.val out))
            else
              match fmt with
              | [] => some (.inr out)
              | ch :: fmt =>
                  match readModifiers rounds {} ch fmt with
                  | none => none
                  | some (_, none, _) => some (.inr out)
                  | some (mods, some ch, fmt) => some (.inl (fmt, convert args size mods ch out))

/-- The terminating zero, and the value returned. -/
def terminate (size : Word) (out : Output) : Word × Output :=
  let out := if out.written = size then { out with buf := out.buf - 1, written := -1 } else out
  (out.written, printc 0 out)

def vxnprintf (rounds : Nat) (args : Arguments) (size : Word) (fmt : Name) :
    Option (Word × Output) :=
  let out : Output := { buf := 0, stores := [], written := 0, ap := 0 }
  if size.toInt ≤ 0 then some (0, out)
  else (loop (formatRound args size rounds) rounds (fmt, out)).map (terminate size)

/-- `snprintf` and `vsnprintf`. -/
def snprintf (rounds : Nat) (args : Arguments) (size : Word) (fmt : Name) : Option (Word × Output) :=
  vxnprintf rounds args size fmt

/-- Memory from the start of the buffer on, after the stores of a call. -/
def Output.memory (out : Output) (before : Nat → Byte) : Nat → Byte :=
  out.stores.foldr (fun store memory i => if i = store.1 then store.2 else memory i) before

end Buenos.Lib
