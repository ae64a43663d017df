/-
# Graphs as text

The text of a block lists its neighbours, the operations of the trace, the operations made from
them, and its stacks.  Listing a graph puts its blocks one after the other, and the functions
found in it at the end.
-/
import TraceLift.Graph.Edit

namespace TraceLift

namespace Graph

/-- The identifiers of blocks, in the order of blocks. -/
def identsSorted (g : Graph) (l : List Nat) : Except Fault (List String) :=
  (g.sortBlocks l).mapM g.ident

/-- The text of a stack item, which is a variable or a stand-in. -/
def renderItem (g : Graph) (a : Operand) : String :=
  match a.render g.machine.store with
  | .ok s => s
  | .error _ => ""

/-- The text of a block's stack. -/
def renderDelta (g : Graph) (b : Block) : String := b.delta.renderWith g.renderItem

/-- The text of a place for an operation. -/
def renderPlace (g : Graph) : Option TacOp → Except Fault String
  | some op => op.render g.machine.store
  | none => .ok "None"

/-- The text of a block. -/
def renderBlock (g : Graph) (b : Block) : Except Fault String := do
  let head := b.toBlockHead.render (← g.identsSorted b.preds) (← g.identsSorted b.succs)
  let ops ← b.places.mapM g.renderPlace
  return String.intercalate "\n"
    [head, BlockHead.separator,
      String.intercalate "\n" (b.source.map (·.toTraceOp.render)), BlockHead.separator,
      String.intercalate "\n" ops, BlockHead.separator,
      "Entry stack: " ++ b.entryStack.render,
      "Stack pops: " ++ toString b.delta.emptyPops,
      "Stack additions: " ++ g.renderDelta b,
      "Exit stack: " ++ b.exitStack.render]

/-- The text of a graph: its blocks between dashes. -/
def render (g : Graph) : Except Fault String := do
  let texts ← g.members.mapM fun (_, b) => g.renderBlock b
  return String.intercalate "\n\n-----\n\n" texts

/-! ## Functions -/

/-- The text of a function. -/
def renderFunction (g : Graph) (f : Function) : Except Fault String := do
  let title :=
    if f.isPrivate then "Private function"
    else if f.signature = "" then "Public fallback function"
    else "Public function signature: " ++ f.signature
  let start ← g.ident f.start
  let finish ← match f.finish with
    | some n => g.ident n
    | none => .ok "None identified"
  let body ← g.identsSorted f.body
  return String.intercalate "\n"
    [title, "Entry block: " ++ start, "Exit block: " ++ finish,
      "Body: " ++ String.intercalate ", " body]

/-- The text of all functions that were found, numbered. -/
def renderExtraction (g : Graph) (x : Extraction) : Except Fault String := do
  let texts ← x.functions.mapM g.renderFunction
  return String.intercalate "\n" (texts.mapIdx fun i text =>
    "Function " ++ toString i ++ ":\n" ++ text ++ "\n")

/-- The line between the blocks of a listing. -/
def listingSeparator : String := "\n\n================================\n\n"

/-- All blocks of a graph as text, by entry if so wanted, and then the functions. -/
def listing (g : Graph) (ordered : Bool) : Except Fault String := do
  let texts ← g.members.mapM fun (_, b) => do return (b.entry, ← g.renderBlock b)
  let texts ← if ordered then sortByEntry false texts else .ok (texts.map (·.2))
  let blocks := String.intercalate listingSeparator texts
  match g.extraction with
  | some x => return blocks ++ listingSeparator ++ (← g.renderExtraction x)
  | none => return blocks

end Graph

end TraceLift
