/-
# Editing a graph

Edges are kept twice, as successors of their head and as predecessors of their tail.  Adding
and removing an edge changes both lists.
-/
import TraceLift.Graph.Basic

namespace TraceLift.Graph

/-- Adds an item at the end of a list, unless the list has it. -/
def insertNew (n : Nat) (l : List Nat) : List Nat := if l.contains n then l else l ++ [n]

/-- Whether there is an edge from one block to another. -/
def hasEdge (g : Graph) (head tail : Nat) : Bool := (g.succs head).contains tail

/-- Adds an edge. -/
def addEdge (g : Graph) (head tail : Nat) : Graph :=
  (g.modify head fun b => { b with succs := insertNew tail b.succs }).modify tail
    fun b => { b with preds := insertNew head b.preds }

/-- Removes an edge. -/
def removeEdge (g : Graph) (head tail : Nat) : Graph :=
  (g.modify head fun b => { b with succs := b.succs.erase tail }).modify tail
    fun b => { b with preds := b.preds.erase head }

/-- Adds a block that is not in the graph. -/
def addBlock (g : Graph) (n : Nat) : Graph := { g with order := insertNew n g.order }

/-- Removes a block and its edges; a block that is not in the graph still loses its edges. -/
def removeBlock (g : Graph) (n : Nat) : Graph × Option Fault :=
  let g := if g.root = some n then { g with root := none } else g
  let g := (g.preds n).foldl (fun g p => g.removeEdge p n) g
  let g := (g.succs n).foldl (fun g s => g.removeEdge n s) g
  if g.order.contains n then ({ g with order := g.order.erase n }, none)
  else (g, some .absentBlock)

/-- Recomputes the predecessors from the successors. -/
def recalcPreds (g : Graph) : Graph :=
  let g := g.order.foldl (fun g n => g.modify n fun b => { b with preds := [] }) g
  g.order.foldl (fun g n =>
    (g.succs n).foldl (fun g s => g.modify s fun b => { b with preds := b.preds ++ [n] }) g) g

/-- The edges that leave blocks of the graph. -/
def edges (g : Graph) : List (Nat × Nat) :=
  g.order.flatMap fun n => (g.succs n).map (n, ·)

/-- Removes all edges of the blocks of the graph and adds others. -/
def setEdges (g : Graph) (edges : List (Nat × Nat)) : Graph :=
  let g := g.order.foldl (fun g n => g.modify n fun b => { b with preds := [], succs := [] }) g
  edges.foldl (fun g (h, t) => g.addEdge h t) g

/-- The graph all of whose blocks are known to fall through to no other. -/
def withoutFallthrough (g : Graph) : Graph :=
  { g with blocks := g.blocks.map fun (b : Block) => { b with fallthrough := some none } }

/-- Numbers an operation that is new to the graph. -/
def number (g : Graph) (op : TacOp) : Graph × TacOp :=
  ({ g with serials := g.serials + 1 }, { op with serial := g.serials })

/-- Sorts items by their entries, ascending or descending; items of one entry keep their order.
If there are several, all entries have to be known. -/
def sortByEntry {α : Type} (descending : Bool) (l : List (Option Int × α)) :
    Except Fault (List α) :=
  match l with
  | [(_, a)] => .ok [a]
  | l => do
    let keyed ← l.mapM fun (entry, a) =>
      match entry with
      | some e => Except.ok (e, a)
      | none => .error Fault.unknownQuantity
    return (keyed.mergeSort fun a b => if descending then b.1 ≤ a.1 else a.1 ≤ b.1).map (·.2)

/-- The blocks of the graph in the order of their entries. -/
def byEntry (g : Graph) (descending : Bool) : Except Fault (List Nat) :=
  sortByEntry descending (g.members.map fun (n, b) => (b.entry, n))

end TraceLift.Graph
