/-
# Named values that may be shared

A register names a cell.  Writing a result gives the register a cell of its own; changing a
value in place changes it for every register that names its cell.
-/
import TraceLift.Fault

namespace TraceLift

/-- Cells, and the names that refer to them. -/
structure Registers (α : Type) where
  cells : Array α := #[]
  /-- The cell of each name, the latest first. -/
  names : List (String × Nat) := []

namespace Registers

variable {α : Type}

/-- The value that a register holds. -/
def get (r : Registers α) (name : String) : Except Fault α :=
  match (r.names.lookup name).bind (r.cells[·]?) with
  | some a => .ok a
  | none => .error .noSuchRegister

/-- Lets a register hold a new value in a cell of its own. -/
def put (r : Registers α) (name : String) (a : α) : Registers α :=
  { cells := r.cells.push a, names := (name, r.cells.size) :: r.names }

/-- Changes the value of a register's cell. -/
def update (r : Registers α) (name : String) (a : α) : Registers α :=
  match r.names.lookup name with
  | some i => { r with cells := r.cells.setIfInBounds i a }
  | none => r.put name a

/-- Lets a register hold the fold of some others.  The fold of one is that one itself, so the
two registers then share a cell; the fold of none is an error. -/
def fold (f : α → α → α) (r : Registers α) (name : String) (sources : List String) :
    Except Fault (Registers α) :=
  match sources with
  | [] => .error .emptyFold
  | [other] =>
    match r.names.lookup other with
    | some i => .ok { r with names := (name, i) :: r.names }
    | none => .error .noSuchRegister
  | first :: rest => do
    let a ← r.get first
    let l ← rest.mapM r.get
    return r.put name (l.foldl f a)

end Registers

end TraceLift
