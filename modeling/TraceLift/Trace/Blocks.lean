/-
# Execution-flow blocks

A trace is cut where control passes from one frame to another: at the first operation of a
called contract, which is the one at program counter zero, and at the call or creation that
control comes back to.  A call that directly follows the operation before it opened no frame
that the trace shows, and is not cut off.

Each operation is told its position in the trace, the nesting depth of its frame and the number
of frames entered before.  The block that is still open when the trace ends is kept only if its
last operation starts no block.
-/
import TraceLift.Block.Head
import TraceLift.Tac.Op
import TraceLift.Trace.Basic

namespace TraceLift

/-- An operation of a trace with its place and the number of the block it belongs to. -/
structure PlacedOp extends TraceOp where
  place : Placement
  owner : Nat
  deriving DecidableEq

/-- Consecutive operations of a trace: those at positions `entry` to `exit`. -/
structure TraceBlock where
  /-- The number by which the block's operations refer to it. -/
  id : Nat
  entry : Int
  exit : Int
  ops : List PlacedOp
  deriving DecidableEq

/-! ## 1. Where blocks start -/

/-- An operation, the place it has, and whether it starts a block. -/
structure Mark where
  op : TraceOp
  place : Placement
  starts : Bool
  deriving DecidableEq

/-- Whether an operation is the next one of the same code after another: the program counters
are as far apart as the first one is long, and the first one does not end the frame. -/
def TraceOp.follows (op prev : TraceOp) : Bool :=
  (match prev.opcode.pcGap with
    | .ok gap => op.pc - prev.pc == gap
    | .error _ => false) &&
  !prev.opcode.possiblyHalts

/-- Marks the operations from position `loc` on, given the operation before, its frame number,
the frame number so far and the depth so far. -/
def markFrom (prev : TraceOp) (prevNumber : Nat) (loc number : Nat) (depth : Int) :
    List TraceOp → List Mark
  | [] => []
  | op :: ops =>
    let number := if op.pc = 0 ∧ loc ≠ 0 then number + 1 else number
    let (starts, depth) :=
      if op.pc = 0 then
        if loc = 0 then (false, 1) else (true, depth + 1)
      else if op.opcode.opensFrame then
        if prevNumber = number ∧ op.follows prev then (false, depth) else (true, depth - 1)
      else (false, depth)
    { op, place := { loc, depth, number }, starts } ::
      markFrom op number (loc + 1) number depth ops

/-- The number of frames entered after the first operation. -/
def frameCount : List TraceOp → Nat
  | [] => 0
  | _ :: ops => ops.countP (·.pc == 0)

/-- Marks all operations.  The operation before the first one is taken to be the last. -/
def marks (ops : List TraceOp) : List Mark :=
  match ops.getLast? with
  | some last => markFrom last (frameCount ops) 0 0 0 ops
  | none => []

/-! ## 2. Cutting -/

/-- Cuts the marked operations in front of each one that starts a block.  The first piece is
empty if already the first operation starts one. -/
def pieces : List Mark → List (List Mark)
  | [] => [[]]
  | m :: ms =>
    match pieces ms with
    | [] => [[m]]
    | p :: ps => if m.starts then [] :: (m :: p) :: ps else (m :: p) :: ps

/-- The blocks of consecutive pieces, the first one starting at a position. -/
def blocksFrom (id : Nat) (entry : Nat) : List (List Mark) → List TraceBlock
  | [] => []
  | p :: ps =>
    { id, entry, exit := (entry : Int) + p.length - 1,
      ops := p.map fun m => { m.op with place := m.place, owner := id } } ::
      blocksFrom (id + 1) (entry + p.length) ps

/-- Whether the block that is open at the end of the trace is kept: the last operation opens
and resumes no frame. -/
def keepsLast (ops : List TraceOp) : Bool :=
  match ops.getLast? with
  | some op => op.pc != 0 && !op.opcode.opensFrame
  | none => false

/-- The blocks of a trace. -/
def blocksOf (ops : List TraceOp) : List TraceBlock :=
  let all := pieces (marks ops)
  blocksFrom 0 0 (if keepsLast ops then all else all.dropLast)

/-! ## 3. Splitting a block -/

namespace TraceBlock

/-- The head of a block. -/
def head (b : TraceBlock) : BlockHead := { entry := some b.entry, exit := some b.exit }

/-- Hands a list of operations over to a block. -/
def owned (id : Nat) (ops : List PlacedOp) : List PlacedOp :=
  ops.map fun op => { op with owner := id }

/-- The number of operations before a distance from the start of a list; a negative distance
counts from its end. -/
def cutPoint (length : Nat) (distance : Int) : Nat :=
  if 0 ≤ distance then distance.toNat else (length + distance).toNat

/-- Splits a block in front of a position; the second part is a new block with the given
number. -/
def split (b : TraceBlock) (entry : Int) (id : Nat) : Except Fault (TraceBlock × TraceBlock) :=
  match BlockHead.make (some entry) (some b.exit) with
  | .error e => .error e
  | .ok _ =>
    let k := cutPoint b.ops.length (entry - b.entry)
    .ok ({ b with exit := entry - 1, ops := owned b.id (b.ops.take k) },
      { id, entry, exit := b.exit, ops := owned id (b.ops.drop k) })

/-- The text of a block and its operations. -/
def render (b : TraceBlock) : String :=
  b.head.render [] [] ++ "\n" ++ BlockHead.separator ++ "\n" ++
    String.intercalate "\n" (b.ops.map (·.toTraceOp.render))

end TraceBlock

end TraceLift
