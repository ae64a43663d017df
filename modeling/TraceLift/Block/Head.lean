/-
# The head of a block

What is common to all blocks: where they start and end, what distinguishes copies of one block,
and whether they hold a jump to an unknown place.  Blocks are ordered by entry, those of one
entry by suffix; a block without an entry is neither before nor after any other.
-/
import TraceLift.Fault
import TraceLift.Text.Numeral
import TraceLift.Word.Arith

namespace TraceLift

/-- The data by which a block is identified and ordered. -/
structure BlockHead where
  /-- The first position of the block. -/
  entry : Option Int
  /-- The last position of the block. -/
  exit : Option Int
  /-- What is appended to the identifier. -/
  suffix : String := ""
  /-- Whether the block holds a jump to an unknown place. -/
  unresolved : Bool := false
  deriving DecidableEq

namespace BlockHead

/-- A block from its bounds, neither of which may be negative. -/
def make (entry exit : Option Int) : Except Fault BlockHead :=
  if entry.any (· < 0) then .error .negativeEntry
  else if exit.any (· < 0) then .error .negativeExit
  else .ok { entry, exit }

/-- The identifier: the entry in hexadecimal and the suffix. -/
def ident (b : BlockHead) : Except Fault String :=
  match b.entry with
  | some e => .ok (Text.hex e ++ b.suffix)
  | none => .error .unknownEntry

/-- The distance from entry to exit, zero if one of them is unknown. -/
def length (b : BlockHead) : Except Fault Int :=
  match b.entry, b.exit with
  | some e, some x =>
    if x < e then .error .negativeLength
    else if Word.maxCount < x - e then .error .tooLong
    else .ok (x - e)
  | _, _ => .ok 0

/-- Whether a position lies between entry and exit.  A bound that is compared with it has to be
known. -/
def spans (b : BlockHead) (pc : Int) : Except Fault Bool :=
  match b.entry, b.exit with
  | none, _ => .error .unknownQuantity
  | some e, some x => .ok (e ≤ pc && pc ≤ x)
  | some e, none => if e ≤ pc then .error .unknownQuantity else .ok false

/-- The order of blocks. -/
def before (a b : BlockHead) : Bool :=
  match a.entry, b.entry with
  | some x, some y => x < y || (x == y && a.suffix < b.suffix)
  | _, _ => false

/-- The line between the parts of a block's text. -/
def separator : String := "---"

/-- A bound as it is printed. -/
def renderBound : Option Int → String
  | some i => Text.hex i
  | none => "Unknown"

/-- What a block is called: its identifier, if it has one. -/
def name (b : BlockHead) : String :=
  match b.ident with
  | .ok ident => ident
  | .error _ => "Unidentified"

/-- The head of a block's text, given the identifiers of its neighbours in order. -/
def render (b : BlockHead) (preds succs : List String) : String :=
  "Block " ++ b.name ++ "\n[" ++ renderBound b.entry ++ ":" ++ renderBound b.exit ++ "]\n" ++
    separator ++ "\nPredecessors: [" ++ String.intercalate ", " preds ++ "]\nSuccessors: [" ++
    String.intercalate ", " succs ++ "]" ++
    (if b.unresolved then "\nHas unresolved jump." else "")

end BlockHead

end TraceLift
