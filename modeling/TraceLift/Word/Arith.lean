/-
# Arithmetic of the machine

The functions behind the arithmetic opcodes, on integers of any size.  None of them reduces
its result: a word is what remains modulo `card`, and that reduction is left to whoever keeps
the result.  `ADD`, `MUL`, `SUB` and `NOT` so leave the range of words, `NOT` and the signed
functions also below zero.

The bits of an integer are those of its two's complement, which goes on for ever to the left:
with zeros for a natural number and with ones for a negative one.

Two functions do not follow the machine.  `signExtend` keeps the bits above the sign bit where it
should keep those below, and `byteAt` counts the bytes of a word from one, so that index 0 is
always 0 and an index over 32 is no byte at all.  `signExtend` also writes its mask out, a digit for
each bit, and fails if there is no room for the digits (`Room`).
-/
import TraceLift.Fault

namespace TraceLift

/-- How many digits or bytes can be held at a time.  The digits of a word always can. -/
structure Room where
  size : Nat
  word_le : 256 ≤ size

/-- The room that is there if nothing is said. -/
def Room.usual : Room := ⟨Nat.pow 2 40, by decide⟩

namespace Word

/-! ## Bits -/

/-- Each bit the opposite: `-n - 1`. -/
def bitNot (i : Int) : Int := -i - 1

/-- Bits set on the left and not on the right. -/
def bitClear (m n : Nat) : Nat := m ^^^ (m &&& n)

/-- Bits set on both sides. -/
def bitAnd : Int → Int → Int
  | .ofNat m, .ofNat n => .ofNat (m &&& n)
  | .ofNat m, .negSucc n => .ofNat (bitClear m n)
  | .negSucc m, .ofNat n => .ofNat (bitClear n m)
  | .negSucc m, .negSucc n => .negSucc (m ||| n)

/-- Bits set on either side. -/
def bitOr : Int → Int → Int
  | .ofNat m, .ofNat n => .ofNat (m ||| n)
  | .ofNat m, .negSucc n => .negSucc (bitClear n m)
  | .negSucc m, .ofNat n => .negSucc (bitClear m n)
  | .negSucc m, .negSucc n => .negSucc (m &&& n)

/-- Bits set on one side only. -/
def bitXor : Int → Int → Int
  | .ofNat m, .ofNat n => .ofNat (m ^^^ n)
  | .ofNat m, .negSucc n => .negSucc (m ^^^ n)
  | .negSucc m, .ofNat n => .negSucc (m ^^^ n)
  | .negSucc m, .negSucc n => .ofNat (m ^^^ n)

/-- The bit at a position, counted from the least significant. -/
def bitAt (i : Int) (position : Nat) : Bool := (i >>> position) % 2 == 1

/-! ## Words -/

/-- The number of bytes of a word. -/
def size : Nat := 32

/-- The number of different words. -/
def card : Int := Int.pow 2 256

/-- The word that an integer stands for. -/
def reduce (i : Int) : Int := i.emod card

/-- The signed reading of a word: negative when its top bit is set. -/
def signed (i : Int) : Int := if bitAt i 255 then i - card else i

/-- One for true, zero for false. -/
def ofBool (b : Bool) : Int := if b then 1 else 0

def div (l r : Int) : Int := if r = 0 then 0 else l.fdiv r

def sdiv (l r : Int) : Int :=
  let a := signed l
  let b := signed r
  let sign : Int := if 0 ≤ a * b then 1 else -1
  if b = 0 then 0 else sign * (a.natAbs / b.natAbs : Nat)

def mod (v m : Int) : Int := if m = 0 then 0 else v.fmod m

def smod (v m : Int) : Int :=
  let a := signed v
  let b := signed m
  let sign : Int := if 0 ≤ a then 1 else -1
  if m = 0 then 0 else sign * (a.natAbs % b.natAbs : Nat)

def addmod (l r m : Int) : Int := if m = 0 then 0 else (l + r).fmod m

def mulmod (l r m : Int) : Int := if m = 0 then 0 else (l * r).fmod m

/-- The size from which an integer has no approximation to be raised to a negative power: the
greatest approximation has 53 leading ones, and what lies half a unit above it is out of reach. -/
def powerLimit : Nat := Nat.pow 2 1024 - Nat.pow 2 970

/-- A natural power.  The units do not need the exponent, which may be too large to count up
to. -/
def power (b : Int) (e : Nat) : Int :=
  if b = 0 ∨ b = 1 then if e = 0 then 1 else b
  else if b = -1 then if e % 2 = 0 then 1 else -1
  else b.pow e

/-- A power; a negative exponent gives no integer. -/
def exp (b e : Int) : Except Fault Int :=
  if 0 ≤ e then .ok (power b e.toNat)
  else if b.natAbs ≥ powerLimit ∨ e.natAbs ≥ powerLimit then .error .tooLong
  else if b = 0 then .error .divisionByZero
  else .error .notAnInteger

/-- The greatest count that addresses can express. -/
def maxCount : Int := Int.pow 2 63 - 1

/-- Whether a repeat count can be expressed at all. -/
def isCount (i : Int) : Bool := -maxCount - 1 ≤ i && i ≤ maxCount

/-- The bits from `position` up to the top of a word, and none if there are no such. -/
def highMask (position : Nat) : Int :=
  if position ≤ 256 then (Int.pow 2 (256 - position) - 1) * Int.pow 2 position else 0

/-- Extends the sign of the low `b + 1` bytes of `v`: with the sign bit clear the bits *above* it
are kept, with the sign bit set those *below* the mask become ones.  The mask is written out
digit by digit first, for which there must be room. -/
def signExtend (b v : Int) (room : Room := .usual) : Except Fault Int :=
  let position := 8 * (b + 1)
  if !isCount (256 - position) || !isCount position then .error .tooLong
  else if room.size < position ∨ room.size < 256 - position then .error .outOfMemory
  else if position ≤ 0 then .error .negativeShift
  else
    let mask := highMask position.toNat
    if bitAt v (position.toNat - 1) then .ok (bitOr v (bitNot mask)) else .ok (bitAnd v mask)

/-- The byte of `v` that starts `32 - b` bytes above its least significant bit. -/
def byteAt (b v : Int) : Except Fault Int :=
  if b ≤ 32 then .ok (bitAnd (v >>> ((32 - b) * 8).toNat) 0xff) else .error .negativeShift

end Word

/-! ## The functions by name -/

/-- The arithmetic functions, one for each arithmetic opcode, and the signed reading. -/
inductive Arith where
  | add | mul | sub | div | sdiv | mod | smod | addmod | mulmod | exp | signextend
  | lt | gt | slt | sgt | eq | iszero | and | or | xor | not | byte
  | signed
  deriving DecidableEq

namespace Arith

/-- The functions with the names they go by. -/
def names : List (String × Arith) :=
  [("ADD", add), ("MUL", mul), ("SUB", sub), ("DIV", div), ("SDIV", sdiv), ("MOD", mod),
    ("SMOD", smod), ("ADDMOD", addmod), ("MULMOD", mulmod), ("EXP", exp),
    ("SIGNEXTEND", signextend), ("LT", lt), ("GT", gt), ("SLT", slt), ("SGT", sgt), ("EQ", eq),
    ("ISZERO", iszero), ("AND", and), ("OR", or), ("XOR", xor), ("NOT", not), ("BYTE", byte),
    ("twos_comp", signed)]

/-- The function of a name. -/
def ofName (name : String) : Except Fault Arith :=
  match names.lookup name with
  | some f => .ok f
  | none => .error .unknownFunction

/-- Applies a function to as many integers as it takes. -/
def eval (f : Arith) (args : List Int) (room : Room := .usual) : Except Fault Int :=
  match f, args with
  | .add, [l, r] => .ok (l + r)
  | .mul, [l, r] => .ok (l * r)
  | .sub, [l, r] => .ok (l - r)
  | .div, [l, r] => .ok (Word.div l r)
  | .sdiv, [l, r] => .ok (Word.sdiv l r)
  | .mod, [v, m] => .ok (Word.mod v m)
  | .smod, [v, m] => .ok (Word.smod v m)
  | .addmod, [l, r, m] => .ok (Word.addmod l r m)
  | .mulmod, [l, r, m] => .ok (Word.mulmod l r m)
  | .exp, [b, e] => Word.exp b e
  | .signextend, [b, v] => Word.signExtend b v room
  | .lt, [l, r] => .ok (Word.ofBool (l < r))
  | .gt, [l, r] => .ok (Word.ofBool (l > r))
  | .slt, [l, r] => .ok (Word.ofBool (Word.signed l < Word.signed r))
  | .sgt, [l, r] => .ok (Word.ofBool (Word.signed l > Word.signed r))
  | .eq, [l, r] => .ok (Word.ofBool (l == r))
  | .iszero, [v] => .ok (Word.ofBool (v == 0))
  | .and, [l, r] => .ok (Word.bitAnd l r)
  | .or, [l, r] => .ok (Word.bitOr l r)
  | .xor, [l, r] => .ok (Word.bitXor l r)
  | .not, [v] => .ok (Word.bitNot v)
  | .byte, [b, v] => Word.byteAt b v
  | .signed, [v] => .ok (Word.signed v)
  | _, _ => .error .wrongArity

end Arith

end TraceLift
