/-
# From stack code to three-address code

Each frame has a symbolic stack.  An operation takes its operands from the stack of its frame
and pushes its result there as a new variable; `POP`, `DUP` and `SWAP` only rearrange the stack
and leave no operation behind.  Values that only the run could know are taken from the trace.

A block at program counter zero opens a frame.  A block that starts with a call or creation
resumes the frame that was suspended last, or, if that one's depth is another, the one before.
A frame is suspended at the end of each of its blocks that does not end in a halt.  All blocks
of a frame share its stack, so a block's stack is the one its frame ends with.
-/
import TraceLift.Stack.Lattice
import TraceLift.Tac.Store
import TraceLift.Trace.Blocks

namespace TraceLift

/-- A block of three-address code. -/
structure TacBlock where
  entry : Int
  exit : Int
  ops : List TacOp
  /-- The operations of the trace that the block stands for. -/
  source : List PlacedOp
  /-- The frame that the block belongs to. -/
  frame : Nat

/-- The state of a conversion. -/
structure Conversion where
  /-- The result variables; the one at position `k` is named `Vk`. -/
  store : Store := #[]
  /-- The stacks of all frames, by frame. -/
  frames : Array (Stack Operand) := #[]
  /-- The suspended frames, the last one first. -/
  suspended : List Nat := []
  /-- The number of blocks converted. -/
  count : Nat := 0

namespace Conversion

/-! ## 1. One operation -/

/-- The recorded value as a word, where there must be one. -/
def recorded (op : TraceOp) : Except Fault Int :=
  match op.value with
  | some v => .ok (Word.reduce v)
  | none => .error .missingValue

/-- How the result of an operation is bound. -/
inductive ResultKind where
  /-- No result. -/
  | none
  /-- A variable yet to be computed, defined at this place. -/
  | computed
  /-- A variable with the value that the trace recorded. -/
  | known
  deriving DecidableEq

/-- The kind of result of an operation. -/
def resultKind (opcode : Opcode) : ResultKind :=
  if opcode.pushes ≠ 1 then .none
  else if opcode.isPush then .computed
  else if opcode.same Opcode.sload || opcode.same Opcode.mload || opcode.readsEnvironment ||
      opcode.readsWorld || opcode.opensFrame then .known
  else .computed

/-- Whether the opcode is left out of an assignment's text. -/
def hidesName (opcode : Opcode) : Bool :=
  opcode.isPush || opcode.readsEnvironment || opcode.readsWorld

/-- The opcode of the three-address operation. -/
def tacOpcode (opcode : Opcode) : Opcode :=
  if opcode.isPush then Opcode.const else if opcode.isLog then Opcode.log else opcode

/-- The result variable of an operation: `V` and its number. -/
def resultVariable (number block : Nat) (op : TraceOp) : Except Fault Variable :=
  let name := "V" ++ toString number
  match resultKind op.opcode with
  | .known =>
    match recorded op with
    | .ok v => .ok (Variable.ofValues [v] name Sites.bottom)
    | .error e => .error e
  | _ => .ok (Variable.top name (.finite [.location (some block) op.pc]))

/-- The operands of an operation and the stack without them.  A push and a code that is not in
the table have their recorded value as the only operand. -/
def operands (stack : Stack Operand) (op : TraceOp) :
    Except Fault (List Operand × Stack Operand) :=
  if op.opcode.isPush || op.opcode.isMissing then
    match recorded op with
    | .ok v => .ok ([.literal v], stack)
    | .error e => .error e
  else .ok (stack.popMany op.opcode.pops.toNat)

/-- Converts one operation: the variables, the stack and the operation it leaves, if any. -/
def convertOp (block : Nat) (store : Store) (stack : Stack Operand) (op : PlacedOp) :
    Except Fault (Store × Stack Operand × Option TacOp) :=
  if op.opcode.isSwap then do
    return (store, ← stack.swap op.opcode.pops.toNat, none)
  else if op.opcode.isDup then do
    return (store, ← stack.dup op.opcode.pops.toNat, none)
  else if op.opcode.same Opcode.pop then
    .ok (store, stack.pop.2, none)
  else do
    let (args, stack) ← operands stack op.toTraceOp
    let tac : TacOp :=
      { opcode := tacOpcode op.opcode, args, pc := op.pc, place := some op.place }
    if resultKind op.opcode = .none then
      return (store, stack, some { tac with value := if op.opcode.isCopy then op.value else none })
    else
      let v ← resultVariable store.size block op.toTraceOp
      let binding : Binding :=
        { target := store.size, showsName := !hidesName op.opcode,
          extra := if op.opcode.isMessageCall then op.extra else none }
      return (store.push v, stack.push (.var store.size), some { tac with binding := some binding })

/-- Converts operations one after the other. -/
def convertOps (block : Nat) (store : Store) (stack : Stack Operand) :
    List PlacedOp → Except Fault (Store × Stack Operand × List TacOp)
  | [] => .ok (store, stack, [])
  | op :: ops => do
    let (store, stack, tac) ← convertOp block store stack op
    let (store, stack, tacs) ← convertOps block store stack ops
    return (store, stack, tac.toList ++ tacs)

/-! ## 2. One block -/

/-- Takes the frame that was suspended last. -/
def resume (suspended : List Nat) : Except Fault (Nat × List Nat) :=
  match suspended with
  | f :: rest => .ok (f, rest)
  | [] => .error .emptyPop

/-- The depth of a frame. -/
def frameDepth (c : Conversion) (frame : Nat) : Option Int :=
  match c.frames[frame]? with
  | some s => s.depth
  | none => none

/-- The frame that a block runs in: a new one, or the one it resumes. -/
def enter (c : Conversion) (first : PlacedOp) : Except Fault (Nat × Conversion) :=
  if first.pc = 0 then
    .ok (c.frames.size,
      { c with frames := c.frames.push (Stack.make [] 1024 20 (some first.place.depth)) })
  else if first.opcode.opensFrame then do
    let (frame, rest) ← resume c.suspended
    if c.frameDepth frame = some first.place.depth then
      return (frame, { c with suspended := rest })
    else
      let (frame, rest) ← resume rest
      return (frame, { c with suspended := rest })
  else .error .noFrame

/-- The frames that wait after a block: its own is added unless the block ends in a halt, and
added twice if the block starts with a call at program counter zero. -/
def suspend (suspended : List Nat) (frame : Nat) (first last : PlacedOp) : List Nat :=
  if last.opcode.possiblyHalts then suspended
  else
    let suspended := if first.pc = 0 then frame :: suspended else suspended
    if first.opcode.opensFrame then frame :: suspended else suspended

/-- Converts a block. -/
def convertBlock (c : Conversion) (b : TraceBlock) : Except Fault (Conversion × TacBlock) :=
  match b.ops.head?, b.ops.getLast? with
  | some first, some last => do
    let (frame, c) ← c.enter first
    let stack := c.frames.getD frame {}
    let (store, stack, ops) ← convertOps c.count c.store stack b.ops
    let ops := if ops.isEmpty then [{ opcode := Opcode.nop, args := [], pc := first.pc }] else ops
    let exit := last.pc + last.opcode.pushLength
    let _ ← BlockHead.make (some first.pc) (some exit)
    return ({ store, frames := c.frames.setIfInBounds frame stack,
              suspended := suspend c.suspended frame first last, count := c.count + 1 },
      { entry := first.pc, exit, ops, source := b.ops, frame })
  | _, _ => .error .noFrame

/-- Converts blocks one after the other. -/
def convertBlocks (c : Conversion) :
    List TraceBlock → Except Fault (Conversion × List TacBlock)
  | [] => .ok (c, [])
  | b :: bs => do
    let (c, t) ← c.convertBlock b
    let (c, ts) ← convertBlocks c bs
    return (c, t :: ts)

end Conversion

end TraceLift
