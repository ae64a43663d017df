/-
# Figures

A trial runs a part of the library on made-up data of a chosen size and reports figures, by which
two runs can be compared.
-/
namespace TraceLift.Trial

/-- What a trial reports. -/
inductive Figure where
  | nothing
  | flag (b : Bool)
  | number (i : Int)
  | text (s : String)
  /-- An opcode, by its name. -/
  | opcode (name : String)
  | row (l : List Figure)
  /-- Figures with names. -/
  | record (l : List (String × Figure))

namespace Figure

/-- A natural number. -/
def count (n : Nat) : Figure := number n

/-- A number, if there is one. -/
def number? : Option Int → Figure
  | some i => number i
  | none => nothing

/-- The length of a text. -/
def lengthOf (s : String) : Figure := count s.length

/-- Whether each of some statements holds. -/
def flags (l : List Bool) : List Figure := l.map flag

end Figure

end TraceLift.Trial
