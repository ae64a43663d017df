/-
# Integers as text

**Written**, an integer has the fewest digits.  The sign stands before the `0x` mark.  In decimal it
is written only if it has no more digits than a numeral that is read may have.

**Read**, a numeral is digits in a base with at most one `_` between two digits, an optional sign in
front, and white space around the whole.  The mark of the base (`0x`, `0o`, `0b`, in either case)
may stand before the digits, with one `_` after it.  Without a base of its own, a numeral is decimal
unless marked, and then a number other than zero must not start with the digit zero.

Digits of every script count.  A decimal digit is a character of the general category `Nd`; such
characters come in runs of ten consecutive code points with the values zero to nine, so the class
is given by the code points of its zeros.
-/
import TraceLift.Fault
import TraceLift.Text.Lines

namespace TraceLift.Text

/-! ## 1. Writing -/

/-- The greatest number of digits of a decimal numeral that is read or written. -/
def maxDecimalDigits : Nat := 4300

/-- An integer in decimal. -/
def decimal (i : Int) : Except Fault String :=
  if i.natAbs < Nat.pow 10 maxDecimalDigits then .ok (toString i) else .error .tooManyDigits

/-- The hexadecimal digits of a natural number, most significant first, in lower case. -/
def hexDigits (n : Nat) : String := String.ofList (Nat.toDigits 16 n)

/-- An integer as `0x1f` or `-0x1f`. -/
def hex (i : Int) : String :=
  if i < 0 then "-0x" ++ hexDigits i.natAbs else "0x" ++ hexDigits i.natAbs

/-- An integer in upper-case hexadecimal without the mark, at least two characters wide,
padded with zeros between the sign and the digits. -/
def hexUpper (i : Int) : String :=
  let digits := (Nat.toDigits 16 i.natAbs).map Char.toUpper
  if i < 0 then String.ofList ('-' :: digits)
  else String.ofList (List.replicate (2 - digits.length) '0' ++ digits)

/-- A number in hexadecimal with at least so many digits. -/
def hexPadded (width n : Nat) : List Char :=
  let digits := Nat.toDigits 16 n
  List.replicate (width - digits.length) '0' ++ digits

/-- One byte as two hexadecimal digits. -/
def hexByte (b : UInt8) : String := String.ofList (hexPadded 2 b.toNat)

/-! ## 2. Digits -/

/-- The code points of the digits zero, in ascending order. -/
def zeroDigits : List Nat :=
  [0x30, 0x660, 0x6f0, 0x7c0, 0x966, 0x9e6, 0xa66, 0xae6, 0xb66, 0xbe6, 0xc66, 0xce6, 0xd66,
   0xde6, 0xe50, 0xed0, 0xf20, 0x1040, 0x1090, 0x17e0, 0x1810, 0x1946, 0x19d0, 0x1a80, 0x1a90,
   0x1b50, 0x1bb0, 0x1c40, 0x1c50, 0xa620, 0xa8d0, 0xa900, 0xa9d0, 0xa9f0, 0xaa50, 0xabf0,
   0xff10, 0x104a0, 0x10d30, 0x11066, 0x110f0, 0x11136, 0x111d0, 0x112f0, 0x11450, 0x114d0,
   0x11650, 0x116c0, 0x11730, 0x118e0, 0x11950, 0x11c50, 0x11d50, 0x11da0, 0x16a60, 0x16ac0,
   0x16b50, 0x1d7ce, 0x1d7d8, 0x1d7e2, 0x1d7ec, 0x1d7f6, 0x1e140, 0x1e2f0, 0x1e950, 0x1fbf0]

/-- The value of a decimal digit of any script. -/
def decimalValue? (c : Char) : Option Nat :=
  (zeroDigits.find? fun z => z ≤ c.toNat && c.toNat < z + 10).map (c.toNat - ·)

/-- The value of a digit in a base up to 36: decimal digits of any script, and Latin letters of
either case. -/
def digitValue? (c : Char) : Option Nat :=
  match decimalValue? c with
  | some d => some d
  | none =>
    if 'a' ≤ c && c ≤ 'z' then some (c.toNat - 'a'.toNat + 10)
    else if 'A' ≤ c && c ≤ 'Z' then some (c.toNat - 'A'.toNat + 10)
    else none

/-! ## 3. Reading -/

/-- Reads digits of a base, with single underscores between them.  The accumulator is the
number so far; `prior` says whether the last character was a digit.  Yields the number and the
count of digits. -/
def readDigits (base : Nat) : List Char → Bool → Nat → Nat → Option (Nat × Nat)
  | [], prior, acc, count => if prior then some (acc, count) else none
  | c :: cs, prior, acc, count =>
    if c = '_' then
      if prior then readDigits base cs false acc count else none
    else
      match digitValue? c with
      | some d =>
        if d < base then readDigits base cs true (acc * base + d) (count + 1) else none
      | none => none

/-- The base that a mark stands for. -/
def markBase? (c : Char) : Option Nat :=
  if c = 'x' || c = 'X' then some 16
  else if c = 'o' || c = 'O' then some 8
  else if c = 'b' || c = 'B' then some 2
  else none

/-- The base of a numeral without its own, and whether a leading zero forces the number zero. -/
def guessBase (cs : List Char) : Nat × Bool :=
  match cs with
  | c :: rest =>
    if digitValue? c = some 0 then
      match rest with
      | m :: _ =>
        match markBase? m with
        | some b => (b, false)
        | none => (10, true)
      | [] => (10, true)
    else (10, false)
  | [] => (10, false)

/-- The digits after the mark of the base, if the mark is there, and after the one underscore
that may follow it. -/
def dropMark (base : Nat) (cs : List Char) : List Char :=
  match cs with
  | z :: m :: rest =>
    if digitValue? z = some 0 ∧ markBase? m = some base then
      match rest with
      | '_' :: more => more
      | _ => rest
    else cs
  | _ => cs

/-- The magnitude of a numeral without sign; `base = none` leaves the base to the mark. -/
def readMagnitude? (base : Option Nat) (cs : List Char) : Option Nat :=
  let (b, onlyZero) := match base with
    | some b => (b, false)
    | none => guessBase cs
  match readDigits b (dropMark b cs) false 0 0 with
  | some (n, count) =>
    if b = 10 ∧ maxDecimalDigits < count then none
    else if onlyZero ∧ n ≠ 0 then none
    else some n
  | none => none

/-- Reads an integer; `base = none` leaves the base to the mark. -/
def readInt? (base : Option Nat) (s : String) : Option Int :=
  match trimList isSpace s.toList with
  | '-' :: cs => (readMagnitude? base cs).map fun n => -(n : Int)
  | '+' :: cs => (readMagnitude? base cs).map Int.ofNat
  | cs => (readMagnitude? base cs).map Int.ofNat

/-- Reads a decimal integer. -/
def readDecimal? (s : String) : Option Int := readInt? (some 10) s

/-- Reads a hexadecimal integer. -/
def readHex? (s : String) : Option Int := readInt? (some 16) s

/-- Reads an integer in the base that its mark gives. -/
def readMarked? (s : String) : Option Int := readInt? none s

end TraceLift.Text
