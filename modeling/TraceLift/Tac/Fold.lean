/-
# Folding

One pass over the operations computes what can be known: a constant gives its variable its
value, an arithmetic operation on known operands gives its result, the stores and copies write
to storage and memory.  An arithmetic operation with an unknown operand forgets its result.

A pass that fails stops at the operation that failed; what the operations before it did stays
done.  So the state is returned in either case.  How much there is room for while the operations
are carried out is an argument of the pass.
-/
import TraceLift.Table
import TraceLift.Tac.Memory
import TraceLift.Tac.Store

namespace TraceLift

/-- What a pass over the operations changes. -/
structure Machine where
  /-- The variables. -/
  store : Store := #[]
  /-- The storage slots written so far, each with the operand stored there. -/
  storage : List (String × Operand) := []
  memory : Memory := []

namespace Machine

/-- The number that the text of an operand gives in base sixteen, its mark taken off. -/
def readOperand (store : Store) (a : Operand) : Except Fault Int :=
  match a.render store with
  | .error e => .error e
  | .ok s =>
    let digits := if s.startsWith "0x" then String.ofList (s.toList.drop 2) else s
    match Text.readHex? digits with
    | some i => .ok i
    | none => .error .badNumeral

/-- Copies the recorded bytes of an operation to memory; the offset and the length are the
operands at the given positions. -/
def copyBytes (m : Machine) (op : TacOp) (offsetArg lengthArg : Nat) (room : Room := .usual) :
    Except Fault Machine := do
  let offset ← readOperand m.store (← op.arg offsetArg)
  let length ← readOperand m.store (← op.arg lengthArg)
  match op.value with
  | none => .error .noRecordedBytes
  | some value => return { m with memory := ← m.memory.write offset length length value room }

/-- Stores the second operand at the offset given by the first: `width` bytes in place of
`span`. -/
def storeBytes (m : Machine) (op : TacOp) (span width : Int) (room : Room := .usual) :
    Except Fault Machine := do
  let offset ← readOperand m.store (← op.arg 0)
  let value ← readOperand m.store (← op.arg 1)
  return { m with memory := ← m.memory.write offset span width value room }

/-- Stores the second operand in the slot named by the first. -/
def storeSlot (m : Machine) (op : TacOp) : Except Fault Machine := do
  let slot ← (← op.arg 0).render m.store
  let value ← op.arg 1
  let _ ← value.lookup m.store
  return { m with storage := setEntry ("S[" ++ slot ++ "]") value m.storage }

/-- Gives the result variable of an operation the values of a set. -/
def assignResult (m : Machine) (op : TacOp) (values : ValueSet) : Except Fault Machine := do
  let (id, v) ← op.target m.store
  let v ← v.assignSet values
  return { m with store := m.store.setIfInBounds id v }

/-- Computes an arithmetic operation whose operands are known, and forgets the result of any
other. -/
def compute (m : Machine) (op : TacOp) (useSets : Bool) (room : Room := .usual) :
    Except Fault Machine := do
  let args ← op.args.mapM (·.values m.store)
  if args.all (·.isConst) || (args.all (!·.isTop) && useSets) then
    let result ← Variable.arith op.opcode.name args Variable.resultName room
    m.assignResult op result.values
  else
    let (id, v) ← op.target m.store
    return { m with store := m.store.setIfInBounds id v.widen }

/-- Carries out one operation. -/
def step (useSets : Bool) (m : Machine) (op : TacOp) (room : Room := .usual) :
    Except Fault Machine :=
  let opcode := op.opcode
  if opcode.same Opcode.const then do
    m.assignResult op (← (← op.arg 0).values m.store)
  else if opcode.same Opcode.calldatacopy || opcode.same Opcode.codecopy ||
      opcode.same Opcode.returndatacopy then
    m.copyBytes op 0 2 room
  else if opcode.same Opcode.extcodecopy then m.copyBytes op 1 3 room
  else if opcode.readsEnvironment || opcode.readsWorld then .ok m
  else if opcode.same Opcode.mload || opcode.same Opcode.sload then .ok m
  else if opcode.same Opcode.sstore then m.storeSlot op
  else if opcode.same Opcode.mstore then m.storeBytes op 32 32 room
  else if opcode.same Opcode.mstore8 then m.storeBytes op 1 8 room
  else if opcode.isArithmetic then m.compute op useSets room
  else .ok m

/-- Carries out operations in order, up to the first that fails. -/
def run (useSets : Bool) (m : Machine) (ops : List TacOp) (room : Room := .usual) :
    Machine × Option Fault :=
  match ops with
  | [] => (m, none)
  | op :: ops =>
    match m.step useSets op room with
    | .ok m => run useSets m ops room
    | .error e => (m, some e)

end Machine

end TraceLift
