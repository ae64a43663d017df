/-
# The variables behind the operations

Operations refer to variables by their position in a store.  Looking an operand up gives the
variable it denotes now; the text of an operation shows its operands as they are now.
-/
import TraceLift.Variable

namespace TraceLift

/-- The variables that operations refer to, by position. -/
abbrev Store := Array Variable

namespace Operand

/-- The name of a word written in the code. -/
def literalName : String := "C"

/-- The variable that an operand denotes. -/
def lookup (store : Store) : Operand → Except Fault Variable
  | var id =>
    match store[id]? with
    | some v => .ok v
    | none => .error .blankArgument
  | literal word => .ok (Variable.ofValues [word] literalName Sites.bottom)
  | entry position => .ok (Variable.ofPosition position Sites.bottom)
  | blank => .error .blankArgument

/-- The possible values of an operand. -/
def values (store : Store) (a : Operand) : Except Fault ValueSet :=
  match a.lookup store with
  | .ok v => .ok v.values
  | .error e => .error e

/-- The name of the variable that an operand denotes. -/
def name (store : Store) (a : Operand) : Except Fault String :=
  match a.lookup store with
  | .ok v => .ok v.name
  | .error e => .error e

/-- The text of an operand. -/
def render (store : Store) (a : Operand) : Except Fault String :=
  match a.lookup store with
  | .ok v => .ok v.render
  | .error e => .error e

end Operand

namespace TacOp

/-- The operand at a position. -/
def arg (op : TacOp) (i : Nat) : Except Fault Operand :=
  match op.args[i]? with
  | some a => .ok a
  | none => .error .indexOutOfRange

/-- The variable that receives the result, which only an assignment has. -/
def target (op : TacOp) (store : Store) : Except Fault (VarId × Variable) :=
  match op.binding with
  | none => .error .noResult
  | some b =>
    match store[b.target]? with
    | some v => .ok (b.target, v)
    | none => .error .noResult

/-- Every operand has exactly one possible value. -/
def hasConstArgs (op : TacOp) (store : Store) : Except Fault Bool := do
  return (← op.args.mapM (·.values store)).all (·.isConst)

/-- No operand is completely unknown. -/
def hasConstrainedArgs (op : TacOp) (store : Store) : Except Fault Bool := do
  return (← op.args.mapM (·.values store)).all (!·.isTop)

/-- The letter before the brackets of a store's destination. -/
def storeLetter? (opcode : Opcode) : Option String :=
  if opcode.same Opcode.mstore then some "M"
  else if opcode.same Opcode.mstore8 then some "M8"
  else if opcode.same Opcode.sstore then some "S"
  else none

/-- The letter before the brackets of a load's source. -/
def loadLetter? (opcode : Opcode) : Option String :=
  if opcode.same Opcode.sload then some "S"
  else if opcode.same Opcode.mload then some "M"
  else none

/-- What stands to the right of an assignment's equals sign. -/
def renderSource (op : TacOp) (store : Store) (binding : Binding) (v : Variable) :
    Except Fault String :=
  match loadLetter? op.opcode with
  | some letter => do
    let a ← (← op.arg 0).render store
    return letter ++ "[" ++ a ++ "]"
  | none =>
    if op.opcode.readsEnvironment || op.opcode.readsWorld then .ok v.render
    else do
      let args ← op.args.mapM (·.render store)
      return String.intercalate " " (if binding.showsName then op.opcode.name :: args else args)

/-- The text of an operation. -/
def render (op : TacOp) (store : Store) : Except Fault String :=
  match op.binding with
  | some binding => do
    let (_, v) ← op.target store
    let source ← op.renderSource store binding v
    return Text.hex op.pc ++ ": " ++ v.name ++ " = " ++ source
  | none =>
    match storeLetter? op.opcode with
    | some letter => do
      let destination ← (← op.arg 0).render store
      let args ← (op.args.drop 1).mapM (·.render store)
      return Text.hex op.pc ++ ": " ++ letter ++ "[" ++ destination ++ "] = " ++
        String.intercalate " " args
    | none => do
      let args ← op.args.mapM (·.render store)
      return Text.hex op.pc ++ ": " ++ op.opcode.name ++ " " ++ String.intercalate " " args

end TacOp

end TraceLift
