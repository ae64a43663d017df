/-
# Relational facts

A graph is handed to a logic program as relations, one file each:

* `op`: each operation with its opcode;
* `op_X`, for each opcode `X` that was asked for: each operation of that opcode with the names of
  its operands and of its result;
* `def`: where each variable is defined;
* `use`: where each variable is used, and as which operand;
* `value`: the known values of each variable.

Every row but those of `value` ends in the operation's place in the trace.
-/
import TraceLift.Directory
import TraceLift.Graph.Basic
import TraceLift.Text.Lines

namespace TraceLift

/-! ## 1. Rows -/

/-- A row of `op`. -/
structure OpRow where
  pc : Int
  opcode : String
  loc : Option Nat
  deriving DecidableEq

/-- A row of `op_X`. -/
structure OperandRow where
  pc : Int
  /-- The names of the operands and then of the result. -/
  names : List String
  loc : Option Nat
  depth : Option Int
  number : Option Nat
  deriving DecidableEq

/-- A row of `def`. -/
structure DefRow where
  name : String
  pc : Int
  loc : Option Nat
  depth : Option Int
  number : Option Nat
  deriving DecidableEq

/-- A row of `use`. -/
structure UseRow where
  name : String
  pc : Int
  /-- Which operand it is, counted from one. -/
  position : Nat
  loc : Option Nat
  depth : Option Int
  number : Option Nat
  deriving DecidableEq

/-- A row of `value`. -/
structure ValueRow where
  name : String
  value : Int
  deriving DecidableEq

/-- A number that may be missing, as a field. -/
def numberField {α : Type} [ToString α] : Option α → String
  | some a => toString a
  | none => ""

def OpRow.fields (r : OpRow) : List String := [Text.hex r.pc, r.opcode, numberField r.loc]

def OperandRow.fields (r : OperandRow) : List String :=
  Text.hex r.pc :: r.names ++ [numberField r.loc, numberField r.depth, numberField r.number]

def DefRow.fields (r : DefRow) : List String :=
  [r.name, Text.hex r.pc, numberField r.loc, numberField r.depth, numberField r.number]

def UseRow.fields (r : UseRow) : List String :=
  [r.name, Text.hex r.pc, toString r.position, numberField r.loc, numberField r.depth,
    numberField r.number]

def ValueRow.fields (r : ValueRow) : List String := [r.name, Text.hex r.value]

/-! ## 2. The rows of an operation -/

namespace TacOp

def opRow (op : TacOp) : OpRow := { pc := op.pc, opcode := op.opcode.name, loc := op.loc? }

/-- The name of the result, if there is one. -/
def resultName? (op : TacOp) (store : Store) : Option String :=
  match op.target store with
  | .ok (_, v) => some v.name
  | .error _ => none

def operandRow (op : TacOp) (store : Store) : Except Fault OperandRow := do
  let args ← op.args.mapM (·.name store)
  return { pc := op.pc, names := args ++ (op.resultName? store).toList, loc := op.loc?,
           depth := op.depth?, number := op.number? }

def defRows (op : TacOp) (store : Store) : List DefRow :=
  match op.resultName? store with
  | some name => [{ name, pc := op.pc, loc := op.loc?, depth := op.depth?, number := op.number? }]
  | none => []

/-- The values of a variable, each in a row. -/
def rowsOfValues (name : String) : ValueSet → List ValueRow
  | .top => []
  | .finite s => s.toList.map fun value => { name, value }

def valueRows (op : TacOp) (store : Store) : List ValueRow :=
  match op.target store with
  | .ok (_, v) => rowsOfValues v.name v.values
  | .error _ => []

/-- The uses of an operation's operands; the operand of a constant is not used. -/
def useRows (op : TacOp) (store : Store) : Except Fault (List UseRow) :=
  if op.opcode.same Opcode.const then .ok []
  else do
    let names ← op.args.mapM (·.name store)
    return names.mapIdx fun i name =>
      { name, pc := op.pc, position := i + 1, loc := op.loc?, depth := op.depth?,
        number := op.number? }

end TacOp

/-! ## 3. The rows of an entry stack -/

/-- What is told of where variables are defined and used and of their values. -/
structure FlowFacts where
  defs : List DefRow := []
  uses : List UseRow := []
  values : List ValueRow := []

/-- The depth and the frame number of a definition site, which a bare location does not have. -/
def Site.frame : Site → Except Fault (Option Int × Option Nat)
  | .location _ _ => .error .siteWithoutDepth
  | .operation op => .ok (op.depth?, op.number?)

/-- The rows of a variable on the entry stack of a block: only one with several definition
sites has any.  Their position is that of the operation seen last. -/
def entryRows (b : BlockHead) (last : Option TacOp) (v : Variable) :
    Except Fault (List DefRow × List ValueRow) :=
  match v.sites with
  | .top => .ok ([], [])
  | .finite sites =>
    if v.sites.several then do
      let name := (← b.ident) ++ ":" ++ v.name
      match last with
      | none => .error .noOperation
      | some op =>
        let defs ← sites.mapM fun s => do
          let (depth, number) ← s.frame
          return { name, pc := s.pc, loc := op.loc?, depth, number }
        return (defs, TacOp.rowsOfValues name v.values)
    else .ok ([], [])

/-- The rows of the variables on an entry stack, from the top down. -/
def entryStackRows (b : BlockHead) (last : Option TacOp) (l : List Variable) :
    Except Fault (List DefRow × List ValueRow) := do
  let rows ← l.mapM (entryRows b last)
  return (rows.flatMap (·.1), rows.flatMap (·.2))

namespace Graph

/-! ## 4. The rows of a graph -/

/-- The rows of `op`. -/
def opRows (g : Graph) : List OpRow := g.ops.map (·.opRow)

/-- The rows of `op_X`. -/
def operandRows (g : Graph) (opcode : String) : Except Fault (List OperandRow) :=
  (g.ops.filter (·.opcode.name == opcode)).mapM (·.operandRow g.machine.store)

/-- The rows of a block, given the operation seen last before it. -/
def blockFacts (g : Graph) (last : Option TacOp) (b : Block) : Except Fault FlowFacts := do
  let store := g.machine.store
  let uses ← b.ops.mapM (·.useRows store)
  let last := b.lastOp? <|> last
  let (defs, values) ← entryStackRows b.toBlockHead last b.entryStack.items
  return { defs := b.ops.flatMap (·.defRows store) ++ defs, uses := uses.flatten,
           values := b.ops.flatMap (·.valueRows store) ++ values }

/-- The rows of blocks, in order. -/
def flowFactsFrom (g : Graph) (last : Option TacOp) : List Block → Except Fault FlowFacts
  | [] => .ok {}
  | b :: bs => do
    let facts ← g.blockFacts last b
    let rest ← flowFactsFrom g (b.lastOp? <|> last) bs
    return { defs := facts.defs ++ rest.defs, uses := facts.uses ++ rest.uses,
             values := facts.values ++ rest.values }

/-- The rows of `def`, `use` and `value`. -/
def flowFacts (g : Graph) : Except Fault FlowFacts := g.flowFactsFrom none (g.members.map (·.2))

/-! ## 5. Files -/

/-- The file of an opcode's relation. -/
def opcodeFile (opcode : String) : String := "op_" ++ opcode ++ ".facts"

/-- The files of the operations: all of them, and those of each opcode asked for. -/
def opFiles (g : Graph) (opcodes : List String) : Except Fault (List (String × String)) := do
  if g.members.any (·.2.gap) then .error .noLastOperation
  let named ← opcodes.eraseDups.mapM fun x => do
    return (opcodeFile x, Text.Tsv.file ((← g.operandRows x).map (·.fields)))
  return ("op.facts", Text.Tsv.file (g.opRows.map (·.fields))) :: named

/-- The files of definitions, uses and values. -/
def flowFiles (g : Graph) : Except Fault (List (String × String)) := do
  let flow ← g.flowFacts
  return [("def.facts", Text.Tsv.file (flow.defs.map (·.fields))),
    ("use.facts", Text.Tsv.file (flow.uses.map (·.fields))),
    ("value.facts", Text.Tsv.file (flow.values.map (·.fields)))]

/-- Writes all relations of a graph into a folder, with those of the opcodes asked for. -/
def writeFacts (g : Graph) (d : Directory) (folder : String) (opcodes : List String) :
    Directory × Option Fault :=
  match if folder = "" then .ok d else d.makeFolder folder with
  | .error e => (d, some e)
  | .ok d =>
    match g.opFiles opcodes with
    | .error e => (d, some e)
    | .ok files =>
      match d.writeAll folder files with
      | (d, some e) => (d, some e)
      | (d, none) =>
        match g.flowFiles with
        | .error e => (d, some e)
        | .ok files => d.writeAll folder files

/-- The files with all relations of a graph, as they are written into an empty directory. -/
def factFiles (g : Graph) (opcodes : List String) : Except Fault (List (String × String)) :=
  match g.writeFacts {} "" opcodes with
  | (d, none) => .ok (d.newFiles {})
  | (_, some e) => .error e

end Graph

end TraceLift
