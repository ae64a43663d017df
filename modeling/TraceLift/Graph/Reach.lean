/-
# Reachability

Three questions about paths of successor edges.  Each is answered by a search that keeps a list
of blocks still to be looked at, for as many rounds as it is given; it answers nothing if they do
not suffice.  The edges and the blocks that a search starts from are enough rounds, as a block
adds its successors when it is looked at first, and none when it is looked at again.
-/
import TraceLift.Graph.Edit

namespace TraceLift.Graph

/-- The successors of a block that were not looked at, the last one first. -/
def fresh (g : Graph) (seen : List Nat) (n : Nat) : List Nat :=
  ((g.succs n).filter (!seen.contains ·)).reverse

/-- Looks at the blocks of a stack, the top one first, until one has a target among its
successors.  Successors that were not looked at are put on top, so that a block may lie on the
stack several times. -/
def reachesLoop (g : Graph) (targets : List Nat) : Nat → List Nat → List Nat → Option Bool
  | 0, _, _ => none
  | _ + 1, [], _ => some false
  | fuel + 1, n :: stack, seen =>
    if targets.any ((g.succs n).contains ·) then some true
    else reachesLoop g targets fuel (g.fresh (n :: seen) n ++ stack) (n :: seen)

/-- Whether a block is one of the targets or has a path to one. -/
def reaches (g : Graph) (n : Nat) (targets : List Nat) : Bool :=
  targets.contains n || g.reachesLoop targets (g.edgeCount + 2) [n] [] == some true

/-- The blocks of the graph that span a program counter. -/
def blocksAt (g : Graph) (pc : Int) : Except Fault (List Nat) := do
  return (← g.members.filterM (·.2.spans pc)).map (·.1)

/-- The first of some blocks with an identifier.  Those before it have to have one. -/
def findNamed (name : String) : List (Nat × Block) → Except Fault (Option Nat)
  | [] => .ok none
  | (n, b) :: rest => do if (← b.ident) = name then return some n else findNamed name rest

/-- The first block of the graph with an identifier. -/
def blockNamed? (g : Graph) (name : String) : Except Fault (Option Nat) :=
  findNamed name g.members

/-- Adds blocks to the end of a queue, except those that are in it or were reached. -/
def enqueue (reached queue ns : List Nat) : List Nat :=
  ns.foldl (fun queue n => if reached.contains n then queue else insertNew n queue) queue

/-- Takes the last block of the queue, which is reached now, and adds its successors. -/
def closureLoop (g : Graph) : Nat → List Nat → List Nat → Option (List Nat)
  | 0, _, _ => none
  | fuel + 1, queue, reached =>
    match queue.getLast? with
    | none => some reached
    | some n =>
      closureLoop g fuel (enqueue (reached ++ [n]) queue.dropLast (g.succs n)) (reached ++ [n])

/-- The blocks that span one of the addresses, each once. -/
def origins (g : Graph) (addresses : List Int) : Except Fault (List Nat) := do
  return enqueue [] [] (← addresses.mapM g.blocksAt).flatten

/-- The blocks reachable from those that span one of the addresses, in the order in which they
are found. -/
def closure (g : Graph) (addresses : List Int) : Except Fault (List Nat) := do
  let queue ← g.origins addresses
  return (g.closureLoop (g.edgeCount + queue.length + 1) queue []).getD []

/-- Removes the blocks of the graph that cannot be reached from the addresses; yields them. -/
def removeUnreachable (g : Graph) (addresses : List Int) : Except Fault (Graph × List Nat) := do
  let reached ← g.closure addresses
  let removed := g.order.filter (!reached.contains ·)
  return (removed.foldl (fun g n => (g.removeBlock n).1) g, removed)

end TraceLift.Graph
