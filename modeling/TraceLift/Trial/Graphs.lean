/-
# Trials of graphs

Trials of the graphs of sample traces: making them, writing them out, visiting them and editing
them.
-/
import TraceLift.Draw
import TraceLift.Facts
import TraceLift.Graph.Copy
import TraceLift.Graph.Reach
import TraceLift.Sample.Trace
import TraceLift.Trial.Values
import TraceLift.Visit

namespace TraceLift.Trial

open Figure

/-- The graph of a sample trace. -/
def sampleGraph (arith calls : Nat) : Except Fault Graph := Graph.ofLines (Sample.lines arith calls)

/-- Makes the graph of a sample and counts its blocks and operations. -/
def building (calls : Nat) : Except Fault Figure := do
  let g ← sampleGraph 2 calls
  let last ← g.lastOp
  return row [count g.order.length, count g.ops.length, text last.opcode.name]

/-- Writes out the graph of a sample. -/
def listing (calls : Nat) : Except Fault Figure := do
  let g ← sampleGraph 2 calls
  return row [lengthOf (← g.listing true), lengthOf (← g.render), count g.ops.length,
    count (g.members.flatMap (·.2.source)).length]

/-- The opcodes whose facts are asked for. -/
def factOpcodes : List String :=
  ["CONST", "ADD", "EQ", "MSTORE", "MLOAD", "SSTORE", "SLOAD", "CALLDATALOAD", "CALL", "JUMP",
    "JUMPI", "LOG"]

/-- The sizes of the fact files of a sample, in ascending order. -/
def facts (calls : Nat) : Except Fault Figure := do
  let g ← sampleGraph 2 calls
  let files ← g.factFiles factOpcodes
  return row ((files.map fun (_, t) => t.length).mergeSort (· ≤ ·) |>.map count)

/-- Draws the graph of a sample. -/
def drawing (calls : Nat) : Except Fault Figure := do
  let g ← sampleGraph 2 calls
  let nodes := (g.draw {} "efg.dot" "" 0).nodes.getD []
  return row [count g.order.length, count nodes.length]

/-- Visits the graph of a sample with a visitor for everything, and fails to visit with others. -/
def visiting (calls : Nat) : Except Fault Figure := do
  let g ← sampleGraph 1 calls
  let (seen, _) := Visit.visitAll .plain (Visit.graphTargets .plain g g.order)
  let some := Visit.Visitor.methods ["TACOp"]
  return row [count seen.length, flag (some.canVisit "TACAssignOp"),
    flag (some.canVisit "TACBasicBlock"), messageOf (.error .abstractVisitor : Except Fault Unit),
    messageOf (Visit.visit some { className := "int", label := "" })]

/-! ## Editing -/

/-- An operation by itself, whose operands are words. -/
def loneOp (opcode : Opcode) (words : List Int) : TacOp :=
  { opcode, args := words.map .literal, pc := 0 }

/-- The text of an operation as an exception, or as it is if it is no jump. -/
def thrown (op : TacOp) : Except Fault Figure := do
  return text (← ((← op.toThrow?).getD op).render #[])

/-- What a location in a block says of itself: its text, that it is like another one and is found
again, and that there is nothing far behind the block. -/
def locations (g : Graph) : Except Fault Figure := do
  let site := Site.location (some 0) 0
  let ops := (g.block? 0).elim [] (·.ops)
  let far := ops.find? fun op => op.pc == 1000000
  return row ([text (← g.renderSite site)] ++
    flags [decide (site = Site.location (some 0) 0), [site, site].eraseDups.length == 1,
      (ops.find? (·.pc == 0)).isSome] ++
    [far.elim nothing fun op => text op.opcode.name])

/-- What holds of heads of blocks. -/
def heads : Except Fault (List Figure) := do
  let unknown ← BlockHead.make none none
  let a ← BlockHead.make (some 0) (some 1)
  let b ← BlockHead.make (some 2) (some 3)
  return [messageOf (BlockHead.make (some (-1)) none), messageOf (BlockHead.make none (some (-1))),
    number (← unknown.length), flag (unknown.before a), messageOf unknown.ident,
    flag (a.before b), flag (a.before { a with suffix := "_" }), flag (b.before a),
    number (← a.length), flag (decide (a = a))]

/-- Asks a sample's graph about its blocks and edges, removes its root, and copies its first
blocks; then some operations and heads of blocks by themselves. -/
def editing (calls : Nat) : Except Fault Figure := do
  let g ← sampleGraph 1 calls
  let last := g.order.length - 1
  let root ← match g.block? 0 with
    | some b => b.length
    | none => .error .absentBlock
  let pruned := (g.removeBlock 0).1
  let known := g.withoutFallthrough
  let copies ← (known.order.take 3).mapM fun n => do
    let (h, m) ← known.copyBlock n
    match h.block? m with
    | some b => return ((← b.ident) == (← g.ident n), b.ops.length)
    | none => .error Fault.absentBlock
  let item := Operand.entry 0
  return row ([count g.order.length, flag g.hasUnresolved, count g.edges.length,
    count (← g.closure [0]).length, count (← g.byEntry false).length, number root,
    flag (g.reaches 0 [last]), flag (g.reaches last [last]), flag (g.hasEdge last 0),
    count g.recalcPreds.order.length, count (← g.blocksAt 0).length,
    flag (← g.blockNamed? (← g.ident last)).isSome, pruned.root.elim nothing count,
    flag (copies.all (·.1)), count ((copies.map (·.2)).foldl (· + ·) 0), ← locations g,
    ← thrown (loneOp .jump []), ← thrown (loneOp .jumpi [0, 1]), ← thrown (loneOp .add []),
    text (← item.name #[]), text (← item.render #[]), messageOf (Operand.blank.render #[])] ++
    (← heads) ++ [text (Text.hexByte 0xff), text (Text.hexByte 0xff)])

end TraceLift.Trial
