/-
# Visiting a graph

A visitor is shown a graph, its blocks and their operations.  What it does with a target depends
on the class of the target: the visitor has methods for some classes, and the one for the nearest
class that the target belongs to is called.  Blocks are shown only if the visitor has a method
for them, and so are operations.
-/
import TraceLift.Graph.Edit

namespace TraceLift

namespace Visit

/-- The classes that each class belongs to, itself first and then from the nearest on. -/
def chains : List (List String) :=
  [["TACGraph", "ControlFlowGraph", "Visitable", "ABC", "object"],
    ["TACBasicBlock", "EVMBasicBlock", "BasicBlock", "Visitable", "ABC", "object"],
    ["TACAssignOp", "TACOp", "Visitable", "ABC", "object"], ["EVMOp", "object"],
    ["bool", "int", "object"]]

/-- The classes that a class belongs to. -/
def chain (className : String) : List String :=
  match chains.find? (·.contains className) with
  | some names => names.dropWhile (· != className)
  | none => [className]

/-- What a visitor has methods for. -/
inductive Visitor where
  /-- One method for everything. -/
  | plain
  /-- A method for each of these classes. -/
  | methods (classes : List String)

/-- The name of the method for a class, if there is one. -/
def Visitor.method? (v : Visitor) (className : String) : Option String :=
  match v with
  | plain => some "visit"
  | methods classes => (chain className).find? (classes.contains ·)

/-- Whether a visitor has a method for a class. -/
def Visitor.canVisit (v : Visitor) (className : String) : Bool := (v.method? className).isSome

/-- Something that a visitor is shown. -/
structure Target where
  className : String
  label : String

/-- A call of a visitor's method. -/
structure Call where
  method : String
  target : Target

/-- Shows a target to a visitor. -/
def visit (v : Visitor) (t : Target) : Except Fault Call :=
  match v.method? t.className with
  | some method => .ok { method, target := t }
  | none => .error (.noVisitMethod t.className)

/-- Shows targets one after the other, up to the first that the visitor has no method for. -/
def visitAll (v : Visitor) : List Target → List Call × Option Fault
  | [] => ([], none)
  | t :: ts =>
    match visit v t with
    | .error e => ([], some e)
    | .ok call =>
      let (calls, fault) := visitAll v ts
      (call :: calls, fault)

/-- An operation as a target. -/
def opTarget (g : Graph) (op : TacOp) : Target :=
  { className := if op.isAssignment then "TACAssignOp" else "TACOp"
    label := match op.render g.machine.store with
      | .ok s => s
      | .error _ => "" }

/-- What a visitor is shown of a block: the block, and its operations if it has a method for
them. -/
def blockTargets (v : Visitor) (g : Graph) (b : Block) : List Target :=
  { className := "TACBasicBlock", label := b.name } ::
    (if v.canVisit "TACOp" || v.canVisit "TACAssignOp" then b.ops.map (opTarget g) else [])

/-- What a visitor is shown of a graph: the graph, and the blocks in the given order if it has a
method for them. -/
def graphTargets (v : Visitor) (g : Graph) (order : List Nat) : List Target :=
  { className := "TACGraph", label := "" } ::
    (if !g.order.isEmpty && v.canVisit "TACBasicBlock" then
      (order.filterMap g.block?).flatMap (blockTargets v g)
    else [])

end Visit

end TraceLift
