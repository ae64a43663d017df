/-
# Three-address operations

An operation applies an opcode to operands and may bind its result to a variable.  Variables
live in a store of their own and are referred to by their position there, so that an operation
never changes: when a variable learns its values, every operation that mentions it shows them.
-/
import TraceLift.Opcode.Basic

namespace TraceLift

/-- The position of a variable in its store. -/
abbrev VarId := Nat

/-- What an operation works on. -/
inductive Operand where
  /-- A variable of the store. -/
  | var (id : VarId)
  /-- A word written in the code. -/
  | literal (word : Int)
  /-- The item that was so many places below the top when the frame was entered. -/
  | entry (position : Nat)
  /-- Nothing. -/
  | blank
  deriving DecidableEq

/-- Where the result of an operation goes. -/
structure Binding where
  /-- The variable that receives the result. -/
  target : VarId
  /-- Whether the opcode is part of the operation's text. -/
  showsName : Bool := true
  /-- The second recorded value of a call. -/
  extra : Option Int := none
  deriving DecidableEq

/-- The place of an operation in the trace. -/
structure Placement where
  /-- The position in the trace. -/
  loc : Nat
  /-- The nesting depth of the frame. -/
  depth : Int
  /-- The number of frames entered before. -/
  number : Nat
  deriving DecidableEq

/-- A three-address operation. -/
structure TacOp where
  opcode : Opcode
  args : List Operand
  pc : Int
  /-- The binding of an assignment. -/
  binding : Option Binding := none
  /-- The bytes that a copy writes, as one number. -/
  value : Option Int := none
  /-- The place in the trace; none for an operation that the trace does not have. -/
  place : Option Placement := none
  /-- What tells the operation from others that look like it. -/
  serial : Nat := 0
  deriving DecidableEq

namespace TacOp

/-- Whether the operation binds its result. -/
def isAssignment (op : TacOp) : Bool := op.binding.isSome

/-- The variable that receives the result. -/
def target? (op : TacOp) : Option VarId := op.binding.map (·.target)

/-- The position in the trace. -/
def loc? (op : TacOp) : Option Nat := op.place.map (·.loc)

/-- The nesting depth of the frame. -/
def depth? (op : TacOp) : Option Int := op.place.map (·.depth)

/-- The number of frames entered before. -/
def number? (op : TacOp) : Option Nat := op.place.map (·.number)

/-- A jump as the exception it becomes when its destination is invalid, its condition kept;
any other operation as `none`. -/
def toThrow? (op : TacOp) : Except Fault (Option TacOp) :=
  if op.opcode.same Opcode.jump then
    .ok (some { opcode := Opcode.throw, args := [], pc := op.pc })
  else if op.opcode.same Opcode.jumpi then
    match op.args[1]? with
    | some condition =>
      .ok (some { opcode := Opcode.throwi, args := [condition], pc := op.pc })
    | none => .error .indexOutOfRange
  else .ok none

end TacOp

end TraceLift
