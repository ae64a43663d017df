/-
# Trials of functions

Trials of finding functions in a graph and of showing them on a page.
-/
import TraceLift.Graph.Functions
import TraceLift.Graph.Text
import TraceLift.Page
import TraceLift.Trial.Graphs

namespace TraceLift.Trial

open Figure
open Sample (Instruction layOut)
open Sample.Instruction (plain recording push1)

/-! ## 1. Finding functions -/

/-- The signature of a number. -/
def signature (i : Nat) : Int := 0x10000000 + i

/-- A dispatcher: it reads the signature of a call and compares it with `n` signatures. -/
def dispatcher (n : Nat) : List Instruction :=
  [push1 0, recording .calldataload (signature 0), recording (.push 4) 0xffffffff, plain .and] ++
    (List.range n).flatMap (fun i =>
      [plain (.dup 1), recording (.push 4) (signature i), plain .eq, recording (.push 2) 0x100,
        plain .jumpi]) ++
    [push1 0, push1 0, plain .ret]

/-- A block that pushes the address it is to be returned to, and another word. -/
def caller (entry returnTo : Int) (store : Store) : Block × Store :=
  let source := (layOut entry.toNat [recording (.push 2) returnTo, push1 0]).map fun op =>
    { op with place := { loc := 0, depth := 1, number := 0 }, owner := 0 : PlacedOp }
  ({ entry := some entry, exit := some (entry + 5), ops := [], source, delta := { items := [.var store.size] },
     fallthrough := some none }, store.push (sampleVariable [returnTo]))

/-- A block without operations. -/
def emptyBlock (entry : Int) : Block :=
  { entry := some entry, exit := some (entry + 5), ops := [], fallthrough := some none }

/-- A graph in which a dispatcher leads to a block that calls a private function, or falls
through; the private function is called from two blocks and returns to two. -/
def callGraph (dispatch : Graph) : Graph :=
  let store := dispatch.machine.store
  let (first, store) := caller 0x110 0x140 store
  let (second, store) := caller 0x120 0x150 store
  let start := (dispatch.block? 0).getD (emptyBlock 0)
  let blocks := [{ start with fallthrough := some (some 7) }, emptyBlock 0x100, first, second,
    emptyBlock 0x130, emptyBlock 0x140, emptyBlock 0x150, emptyBlock 0x160]
  let g : Graph :=
    { machine := { dispatch.machine with store }, blocks, order := List.range blocks.length,
      root := some 0 }
  g.setEdges [(0, 2), (0, 7), (2, 1), (3, 1), (1, 4), (4, 5), (4, 6), (5, 6), (7, 5)]

/-- Finds the functions of a dispatcher by itself, which has none, and of a graph that starts with
it. -/
def extracting (n : Nat) : Except Fault Figure := do
  let g ← Graph.ofTrace (layOut 0 (dispatcher n))
  let g := g.withoutFallthrough
  let alone ← g.extract
  let g := { g with extraction := some alone }
  let h := callGraph g
  let found ← h.extract
  let marked := h.markFunctions found
  let texts := (← found.functions.mapM marked.renderFunction).mergeSort (· ≤ ·)
  return row [text (← g.renderExtraction alone), lengthOf (← g.listing true),
    row ((← alone.functions.mapM g.renderFunction).map text),
    count found.privateFunctions.length, count found.publicFunctions.length,
    row (texts.map text)]

/-! ## 2. The page -/

/-- A drawing, three lines of which come before what is shown. -/
def sampleDrawing : String := "<?xml?>\n<!DOCTYPE svg>\n<svg>\n<g></g>\n</svg>"

/-- The function of a number: every third one is private, every fourth has no end, and every
fifth no signature. -/
def sampleFunction (blocks : List Nat) (i : Nat) : Function :=
  { body := blocks, start := blocks.headD 0
    finish := if i % 4 = 0 then none else blocks.getLast?
    signature := if i % 5 = 0 then "" else Text.hex (0x1000 + i)
    isPrivate := i % 3 = 0 }

/-- Shows `n` functions of a sample's graph on a page. -/
def paging (n : Nat) : Except Fault Figure := do
  let g ← sampleGraph 1 2
  let found : Extraction := { publicFunctions := (List.range n).map (sampleFunction g.order) }
  let lengths := (← found.functions.mapM g.renderFunction).map String.length
  return row [lengthOf (← Page.ofDrawing sampleDrawing (some (g, found))),
    lengthOf (← g.renderExtraction found), count (lengths.foldl (· + ·) 0),
    count found.functions.length]

end TraceLift.Trial
