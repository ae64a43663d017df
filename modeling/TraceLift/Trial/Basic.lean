/-
# Trials

The trials by kind, each with the size it has unless another is given.
-/
import TraceLift.Trial.Functions
import TraceLift.Trial.Options

namespace TraceLift

/-- The kinds of trial. -/
inductive TrialKind where
  | building
  | listing
  | facts
  | drawing
  | visiting
  | editing
  | extracting
  | paging
  | opcodes
  | lattices
  | arithmetic
  | stacking
  | cycling
  deriving DecidableEq

namespace TrialKind

/-- The usual size of a trial. -/
def size : TrialKind → Nat
  | building | listing | facts | editing => 8
  | drawing => 6
  | visiting | arithmetic => 12
  | extracting => 16
  | paging => 150
  | opcodes => 50
  | lattices => 120
  | stacking | cycling => 200

/-- Runs a trial of a size. -/
def run (t : TrialKind) (n : Nat) : Except Fault Trial.Figure :=
  match t with
  | building => Trial.building n
  | listing => Trial.listing n
  | facts => Trial.facts n
  | drawing => Trial.drawing n
  | visiting => Trial.visiting n
  | editing => Trial.editing n
  | extracting => Trial.extracting n
  | paging => Trial.paging n
  | opcodes => Trial.opcodes n
  | lattices => Trial.lattices n
  | arithmetic => Trial.arithmetic n
  | stacking => Trial.stacking n
  | cycling => Trial.cycling n

end TrialKind

end TraceLift
