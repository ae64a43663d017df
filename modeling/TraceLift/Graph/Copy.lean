/-
# Copying a block

The copy of a block has variables and operations of its own: each that the block mentions is
copied once, so what was shared inside the block is shared inside the copy, and nothing is shared
with the block itself.  The copied operations keep their opcode, operands and program counter and
forget their place in the trace and their recorded values.  Definition sites of the copy's
results point into the copy.
-/
import TraceLift.Graph.Basic

namespace TraceLift

/-- What has been copied so far: the store with the copies of variables, where each one's copy
is, and the copies of operations by the numbers of what they are copies of. -/
structure Copying where
  store : Store
  copies : List (VarId × VarId) := []
  /-- The number of the next operation. -/
  serials : Nat := 0
  opCopies : List (Nat × TacOp) := []

namespace Copying

/-- The copy of a variable, made now unless there is one. -/
def variableCopy (c : Copying) (id : VarId) : VarId × Copying :=
  match c.copies.lookup id with
  | some new => (new, c)
  | none =>
    match c.store[id]? with
    | some v =>
      (c.store.size,
        { c with store := c.store.push v.copy, copies := (id, c.store.size) :: c.copies })
    | none => (id, c)

/-- The copy of an operand. -/
def operand (c : Copying) : Operand → Operand × Copying
  | .var id =>
    let (id, c) := c.variableCopy id
    (.var id, c)
  | a => (a, c)

/-- The copies of a list of operands, in order. -/
def operands (c : Copying) : List Operand → List Operand × Copying
  | [] => ([], c)
  | a :: l =>
    let (a, c) := c.operand a
    let (l, c) := operands c l
    (a :: l, c)

/-- The copy of a binding. -/
def binding (c : Copying) : Option Binding → Option Binding × Copying
  | none => (none, c)
  | some b =>
    let (target, c) := c.variableCopy b.target
    (some { target, showsName := b.showsName }, c)

/-- The copy of an operation, made now unless there is one: its result first, then its
operands. -/
def op (c : Copying) (o : TacOp) : TacOp × Copying :=
  match c.opCopies.lookup o.serial with
  | some new => (new, c)
  | none =>
    let (binding, c) := c.binding o.binding
    let (args, c) := c.operands o.args
    let new : TacOp := { opcode := o.opcode, args, pc := o.pc, binding, serial := c.serials }
    (new, { c with serials := c.serials + 1, opCopies := (o.serial, new) :: c.opCopies })

/-- The copies of a list of operations, in order. -/
def ops (c : Copying) : List TacOp → List TacOp × Copying
  | [] => ([], c)
  | o :: l =>
    let (o, c) := c.op o
    let (l, c) := ops c l
    (o :: l, c)

/-- The copies of definition sites. -/
def sites (c : Copying) : List Site → List Site × Copying
  | [] => ([], c)
  | .operation o :: l =>
    let (o, c) := c.op o
    let (l, c) := sites c l
    (.operation o :: l, c)
  | s :: l =>
    let (l, c) := sites c l
    (s :: l, c)

/-- The copies of the variables of a stack. -/
def items (c : Copying) : List Variable → List Variable × Copying
  | [] => ([], c)
  | v :: l =>
    let (sites, c) := match v.sites with
      | .top => (Sites.top, c)
      | .finite s =>
        let (s, c) := c.sites s
        (Sites.finite s, c)
    let (l, c) := items c l
    ({ v.copy with sites } :: l, c)

/-- Moves the definition sites of the results of some operations into a block. -/
def claim (store : Store) (block : Nat) (ops : List TacOp) : Except Fault Store :=
  ops.foldlM (fun store o =>
    match o.binding with
    | none => .ok store
    | some b =>
      match store[b.target]? with
      | none => .ok store
      | some v => do
        return store.setIfInBounds b.target { v with sites := ← v.sites.inBlock block }) store

end Copying

/-- A copy of a block, which gets the next number and is not in the graph yet. -/
def Graph.copyBlock (g : Graph) (n : Nat) : Except Fault (Graph × Nat) :=
  match g.block? n with
  | none => .error .indexOutOfRange
  | some b => do
    let c : Copying := { store := g.machine.store, serials := g.serials }
    let (ops, c) := c.ops b.ops
    let (delta, c) := c.operands b.delta.items
    let _ ← BlockHead.make b.entry b.exit
    let (entryItems, c) := c.items b.entryStack.items
    let (exitItems, c) := c.items b.exitStack.items
    match b.fallthrough with
    | none => .error .noFallthrough
    | some _ =>
      let new := g.blocks.length
      let copy : Block :=
        { b with
          ops, delta := { b.delta with items := delta },
          entryStack := { b.entryStack with items := entryItems },
          exitStack := { b.exitStack with items := exitItems }, index := none }
      let store ← Copying.claim c.store new ops
      if b.gap then .error .noLastOperation
      return ({ g with machine := { g.machine with store }, blocks := g.blocks ++ [copy],
                       serials := c.serials }, new)

end TraceLift
