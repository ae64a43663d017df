/-
# Execution-flow graphs

A graph has blocks of three-address code and the edges between them.  Blocks are known by
number.  `order` lists those that belong to the graph; a block that was removed, or a copy that
was never added, still has its number, its operations and its edges.

A graph is made from a trace by cutting it into blocks, converting these, carrying the
operations out once, and joining consecutive blocks by an edge.
-/
import TraceLift.Order.Sort
import TraceLift.Tac.Convert
import TraceLift.Tac.Fold

namespace TraceLift

/-- A function found in a graph: blocks that belong together. -/
structure Function where
  /-- The blocks of the function. -/
  body : List Nat
  start : Nat
  finish : Option Nat
  signature : String := ""
  isPrivate : Bool := false
  /-- The blocks a private function is called from. -/
  preds : List Nat := []
  /-- The blocks a private function returns to. -/
  succs : List Nat := []
  deriving DecidableEq

/-- The functions found in a graph. -/
structure Extraction where
  publicFunctions : List Function := []
  privateFunctions : List Function := []
  /-- For each block that calls a private function, the block that it returns to. -/
  returns : List (Nat × Nat) := []
  deriving DecidableEq

/-- All functions, the public ones first. -/
def Extraction.functions (x : Extraction) : List Function :=
  x.publicFunctions ++ x.privateFunctions

/-- A block of a graph. -/
structure Block extends BlockHead where
  ops : List TacOp
  /-- Whether there is an empty place after the operations. -/
  gap : Bool := false
  /-- The operations of the trace that the block stands for. -/
  source : List PlacedOp := []
  /-- What the block's frame left on its stack. -/
  delta : Stack Operand := {}
  entryStack : Stack Variable := {}
  exitStack : Stack Variable := {}
  preds : List Nat := []
  succs : List Nat := []
  /-- The block reached when no jump is taken: not known yet, none, or a block. -/
  fallthrough : Option (Option Nat) := none
  /-- The position in the graph when it was made. -/
  index : Option Nat := none

namespace Block

/-- The places for operations, the last of which may be empty. -/
def places (b : Block) : List (Option TacOp) := b.ops.map some ++ if b.gap then [none] else []

/-- The last operation. -/
def lastOp? (b : Block) : Option TacOp := if b.gap then none else b.ops.getLast?

/-- Puts an operation, or nothing, in the last place, or in a first one if there is none. -/
def setLastOp (b : Block) (op : Option TacOp) : Block :=
  { b with ops := (if b.gap then b.ops else b.ops.dropLast) ++ op.toList, gap := op.isNone }

/-- Removes all operations. -/
def clearOps (b : Block) : Block := { b with ops := [], gap := false }

/-- Numbers the operations of a block from a number on. -/
def numberOps (b : Block) (first : Nat) : Block :=
  { b with ops := (b.ops.zipIdx first).map fun (op, n) => { op with serial := n } }

end Block

/-- A graph of blocks. -/
structure Graph where
  /-- The variables, storage and memory. -/
  machine : Machine := {}
  /-- All blocks, by number. -/
  blocks : List Block := []
  /-- The blocks of the graph, in order. -/
  order : List Nat := []
  root : Option Nat := none
  extraction : Option Extraction := none
  /-- How many operations have been numbered. -/
  serials : Nat := 0

namespace Graph

/-! ## 1. Blocks by number -/

/-- The block of a number. -/
def block? (g : Graph) (n : Nat) : Option Block := g.blocks[n]?

/-- The successors of a block. -/
def succs (g : Graph) (n : Nat) : List Nat :=
  match g.block? n with
  | some b => b.succs
  | none => []

/-- The predecessors of a block. -/
def preds (g : Graph) (n : Nat) : List Nat :=
  match g.block? n with
  | some b => b.preds
  | none => []

/-- The identifier of a block. -/
def ident (g : Graph) (n : Nat) : Except Fault String :=
  match g.block? n with
  | some b => b.ident
  | none => .error .indexOutOfRange

/-- Changes one block. -/
def modify (g : Graph) (n : Nat) (f : Block → Block) : Graph :=
  { g with blocks := g.blocks.modify n f }

/-- The blocks of the graph with their numbers, in order. -/
def members (g : Graph) : List (Nat × Block) :=
  g.order.filterMap fun n => (g.block? n).map (n, ·)

/-- The order of blocks: by entry, then by suffix. -/
def before (g : Graph) (m n : Nat) : Bool :=
  match g.block? m, g.block? n with
  | some a, some b => a.before b.toBlockHead
  | _, _ => false

/-- Sorts blocks, those that compare equal in the order given. -/
def sortBlocks (g : Graph) (l : List Nat) : List Nat := Order.sortBy g.before l

/-- The number of edges that leave any block. -/
def edgeCount (g : Graph) : Nat := (g.blocks.map (·.succs.length)).foldl (· + ·) 0

/-! ## 2. Making a graph -/

/-- Joins consecutive blocks of the graph, and only them, if there is more than one. -/
def connect (g : Graph) : Graph :=
  if g.order.length ≤ 1 then g
  else
    let withPred := (none :: g.order.map some).zip g.order
    let withSucc := (g.order.drop 1).map some ++ [none]
    (withPred.zip withSucc).foldl (fun g ((pred, n), succ) =>
      g.modify n fun b => { b with preds := pred.toList, succs := succ.toList }) g

/-- Carries out the operations of blocks in order, up to the first that fails or is missing. -/
def runBlocks (useSets : Bool) (m : Machine) : List Block → Machine × Option Fault
  | [] => (m, none)
  | b :: bs =>
    match m.run useSets b.ops with
    | (m, some e) => (m, some e)
    | (m, none) => if b.gap then (m, some .noLastOperation) else runBlocks useSets m bs

/-- Carries out the operations of all blocks. -/
def apply (g : Graph) (useSets : Bool) : Graph × Option Fault :=
  let (machine, fault) := runBlocks useSets g.machine (g.members.map (·.2))
  ({ g with machine }, fault)

/-- A block of a graph from a converted one, its stack being the one its frame ended with. -/
def ofTacBlock (frames : Array (Stack Operand)) (index : Nat) (b : TacBlock) : Block :=
  { entry := some b.entry, exit := some b.exit, ops := b.ops, source := b.source,
    delta := frames.getD b.frame {}, index := some index }

/-- Numbers the operations of blocks, those of the first block from a number on. -/
def numberBlocks (first : Nat) : List Block → List Block
  | [] => []
  | b :: bs => b.numberOps first :: numberBlocks (first + b.ops.length) bs

/-- The graph of the blocks of a trace. -/
def ofTraceBlocks (bs : List TraceBlock) : Except Fault Graph := do
  let (c, ts) ← Conversion.convertBlocks {} bs
  let blocks := numberBlocks 0 (ts.mapIdx fun i t => ofTacBlock c.frames i t)
  let g : Graph :=
    { machine := { store := c.store }, blocks, order := List.range blocks.length,
      root := blocks.findIdx? (·.entry == some 0),
      serials := (blocks.map (·.ops.length)).foldl (· + ·) 0 }
  match g.apply false with
  | (g, none) => return g.connect
  | (_, some e) => .error e

/-- The graph of a trace. -/
def ofTrace (ops : List TraceOp) : Except Fault Graph := ofTraceBlocks (blocksOf ops)

/-- The graph of a trace given as text. -/
def ofLines (lines : List String) : Except Fault Graph := do
  ofTrace (← TraceOp.parseLines lines)

/-! ## 3. Operations of a graph -/

/-- All operations of the graph, block by block. -/
def ops (g : Graph) : List TacOp := g.members.flatMap (·.2.ops)

/-- The operation with the greatest program counter among the last ones of all blocks; the
first of several. -/
def lastOp (g : Graph) : Except Fault TacOp := do
  let lasts ← g.members.mapM fun (_, b) =>
    match b.lastOp? with
    | some op => Except.ok op
    | none => .error Fault.noLastOperation
  match lasts with
  | [] => .error .emptyMaximum
  | op :: rest => return rest.foldl (fun best op => if best.pc < op.pc then op else best) op

/-- Whether some block of the graph holds a jump to an unknown place. -/
def hasUnresolved (g : Graph) : Bool := g.members.any (·.2.unresolved)

end Graph

end TraceLift
