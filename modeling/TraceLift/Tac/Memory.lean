/-
# Memory

Memory is a list of bytes.  A write replaces the bytes between two positions by others, which
need not be as many: `memory` grows, shrinks, or is appended to when the positions lie beyond
its end.  A negative position counts from the end.
-/
import TraceLift.Fault
import TraceLift.Word.Arith

namespace TraceLift

/-- The bytes of the memory. -/
abbrev Memory := List UInt8

namespace Memory

/-- A position as an index into a list: a negative one counts from the end, and all are brought
into the range. -/
def clamp (length : Nat) (i : Int) : Nat :=
  if i < 0 then (length + i).toNat else min i.toNat length

/-- Replaces what lies between two positions. -/
def replace (memory : Memory) (start stop : Int) (bytes : List UInt8) : Memory :=
  let a := clamp memory.length start
  let b := max a (clamp memory.length stop)
  memory.take a ++ bytes ++ memory.drop b

/-- The last `width` bytes of a number, most significant first. -/
def bigEndian (n : Nat) : Nat → List UInt8
  | 0 => []
  | width + 1 => bigEndian (n / 256) width ++ [UInt8.ofNat n]

/-- The number of bytes of a number, without leading zeros. -/
def byteLength (n : Nat) : Nat := if n = 0 then 0 else n.log2 / 8 + 1

/-- The room that a row of bytes takes besides the bytes themselves. -/
def overhead : Int := 33

/-- A number as exactly `width` bytes, if it is not negative and fits.  Room for the bytes is
made before the number is looked at. -/
def encode (value width : Int) (room : Room := .usual) : Except Fault (List UInt8) :=
  if width > Word.maxCount ∨ width < -Word.maxCount - 1 then .error .tooLong
  else if width < 0 then .error .negativeWidth
  else if Word.maxCount < width + overhead then .error .tooLong
  else if room.size < width then .error .outOfMemory
  else if value < 0 then .error .doesNotFit
  else if width < byteLength value.natAbs then .error .doesNotFit
  else
    let bytes := bigEndian value.natAbs (byteLength value.natAbs)
    .ok (List.replicate (width.toNat - bytes.length) 0 ++ bytes)

/-- Writes a number as `width` bytes over the `span` bytes from an offset on. -/
def write (memory : Memory) (offset span width value : Int) (room : Room := .usual) :
    Except Fault Memory :=
  match encode value width room with
  | .ok bytes => .ok (memory.replace offset (offset + span) bytes)
  | .error e => .error e

end Memory

end TraceLift
