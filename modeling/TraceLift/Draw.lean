/-
# Drawing a graph

A graph is handed to a drawing library with one node for each block.  A node carries the text of
its block and the definition sites of the variables on its entry stack.  The name of the file
decides what is made of it: a page, a picture of the format that the name ends in, or a plain
description; the description is tried twice before giving up.
-/
import TraceLift.Directory
import TraceLift.Page

namespace TraceLift

/-- What is asked of the drawing library. -/
inductive DrawCall where
  | writeDescription (path : String)
  | makePicture
  | setMargin (width : Nat)
  | writePicture (path format : String)

/-- What came of drawing a graph. -/
structure Drawing where
  /-- The nodes, if the drawing library got to see them. -/
  nodes : Option (List (Nat × String)) := none
  calls : List DrawCall := []
  /-- The files afterwards. -/
  directory : Directory
  fault : Option Fault := none

namespace Graph

/-- The text of a definition site. -/
def renderSite (g : Graph) : Site → Except Fault String
  | .location (some n) pc => do return (← g.ident n) ++ "." ++ Text.hex pc
  | .location none _ => .error .noBlock
  | .operation op => op.render g.machine.store

/-- A variable of an entry stack with its definition sites. -/
def renderDefinition (g : Graph) (v : Variable) : Except Fault String := do
  let sites ← (← v.sites.members).mapM g.renderSite
  return v.render ++ ": \x7b" ++ String.intercalate ", " sites ++ "\x7d\n"

/-- The text that a node carries. -/
def tooltip (g : Graph) (b : Block) : Except Fault String := do
  let text ← g.renderBlock b
  let definitions ← b.entryStack.items.reverse.mapM g.renderDefinition
  return text ++ "\n\nDef sites:\n" ++ String.join definitions

/-- What follows the last dot of a file name. -/
def extension (path : String) : String := ((Text.split '.' path).getLast?).getD ""

/-- Writes the page of a graph, which is made from a picture of it. -/
def writePage (g : Graph) (directory : Directory) (path picture : String) :
    Except Fault Directory := do
  directory.write path (← Page.ofDrawing picture (g.extraction.map (g, ·)))

/-- Draws a graph to a file.  `picture` is what the drawing library makes of it, and `failures`
is how many of its attempts to write a description fail. -/
def draw (g : Graph) (directory : Directory) (path picture : String) (failures : Nat) : Drawing :=
  match g.members.mapM fun (_, b) => g.tooltip b with
  | .error e => { directory, fault := some e }
  | .ok tooltips =>
    let nodes := some (tooltips.mapIdx fun i t => (i, t))
    if path.toList.contains '.' && !path.endsWith ".dot" then
      if extension path = "html" then
        let calls := [.makePicture]
        match g.writePage directory path picture with
        | .ok directory => { nodes, calls, directory }
        | .error e => { nodes, calls, directory, fault := some e }
      else
        { nodes, directory, calls := [.setMargin 0, .writePicture path (extension path)] }
    else
      let path := if path = "" then "efg.html" else path
      let attempts := if failures = 0 then 1 else 2
      { nodes, directory, calls := List.replicate attempts (.writeDescription path),
        fault := if 2 ≤ failures then some .fileUnavailable else none }

end Graph

end TraceLift
