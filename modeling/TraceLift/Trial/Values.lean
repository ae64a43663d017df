/-
# Trials of values

Trials of opcodes, lattices, variables and stacks.
-/
import TraceLift.Lattice.Flat
import TraceLift.Stack.Lattice
import TraceLift.Trial.Figure

namespace TraceLift.Trial

open Figure

/-- The message of a failure that was to be expected. -/
def messageOf {α : Type} : Except Fault α → Figure
  | .ok _ => nothing
  | .error e =>
    match e.message with
    | some m => text m
    | none => nothing

/-! ## 1. Opcodes -/

/-- The classes an opcode can be in. -/
def opcodeClasses : List (Opcode → Bool) :=
  [Opcode.readsEnvironment, Opcode.readsWorld, Opcode.isStorageLoad, Opcode.isStore,
    Opcode.isCopy, Opcode.isMessageCall, Opcode.isCreation, Opcode.isPush, Opcode.isSwap,
    Opcode.isDup, Opcode.isLog, Opcode.isMissing, Opcode.isInvalid, Opcode.isArithmetic,
    Opcode.isMemory, Opcode.isStorage, Opcode.isCall, Opcode.altersFlow, Opcode.isException,
    Opcode.halts, Opcode.possiblyHalts]

/-- What one name adds to the sum: its opcode's code, its measures, the number of classes it is
in, and one more if looking its code up leads back to it. -/
def opcodeWeight (name : String) : Except Fault Int := do
  let op ← Opcode.ofName name
  let back ← Opcode.ofCode op.code
  let gap ← op.pcGap
  return op.code + op.stackDelta + op.pushLength + op.logLength + gap +
    (opcodeClasses.countP (· op) : Nat) + (if op.same back then 1 else 0)

/-- Adds up the weights of all names and the codes of all opcodes found by their code; then fails
to look up what is not there. -/
def opcodes (rounds : Nat) : Except Fault Figure := do
  let weights ← (Opcode.names.map (·.1)).mapM opcodeWeight
  let codes ← (Opcode.table.map (·.code)).mapM fun code => return (← Opcode.ofCode code).code
  let last := (Opcode.names.map (·.1)).foldl (fun a b => if a < b then b else a) ""
  let op ← Opcode.ofName last
  let missing ← Opcode.missing 0x0c
  let total := weights.foldl (· + ·) 0 + codes.foldl (· + ·) 0
  let line := row [number total, opcode op.name, text missing.name]
  return row (List.replicate rounds line ++
    [messageOf (Opcode.ofName "nope"), messageOf (Opcode.ofCode 0x0c),
      messageOf (Opcode.missing Opcode.add.code)])

/-! ## 2. Lattices -/

/-- Neighbours in a list. -/
def neighbours {α : Type} (l : List α) : List (α × α) := l.zip (l.drop 1)

/-- The numbers below `n`, top and bottom, each with its neighbour, and then what holds of all of
them and of the first. -/
def flatLattice (n : Nat) : Except Fault (List Figure) := do
  let elements := (List.range n).map (fun (i : Nat) => Flat.int i) ++ [.top, .bottom]
  let shown := fun (a : Flat) => do return text (← a.render)
  let pairs ← (neighbours elements).mapM fun (a, b) => do
    return row [← shown (a.meet b), ← shown (a.join b), flag a.isInt, ← shown (a.add b)]
  let first := elements.headD .top
  return pairs ++ [← shown (Flat.meetAll elements), ← shown (Flat.joinAll elements),
    ← shown (Flat.joinAll []), ← shown (Flat.meetAll []),
    ← shown (first.meet .top), ← shown (first.join .bottom),
    row [← shown (first.meet first), ← shown (first.join first), flag (first == first),
      flag (first != first), ← shown first],
    text (" " ++ (← first.render) ++ ">")]

/-- The set of the first `k` numbers. -/
def numbersBelow (k : Nat) : ValueSet := ValueSet.ofList ((List.range k).map Int.ofNat)

/-- Sets of fewer than ten numbers, each with its neighbour, and then a set that grows with `n` and
the extreme elements. -/
def setLattice (n : Nat) : Except Fault (List Figure) := do
  let shown := fun (a : ValueSet) => do return text (← a.render)
  let pairs ← (neighbours ((List.range n).map fun i => numbersBelow (i % 10))).mapM fun (a, b) => do
    return row [count (a.meet b).size, count (a.join b).size, flag (a.meet b).isConst,
      flag (a.join b).isFinite, ← shown (a.meet b)]
  let large := numbersBelow (max 2 (n / 4))
  let sums ← ValueSet.lift (fun l => .ok (l.foldl (· + ·) 0)) [large, large]
  return pairs ++ [count (large.map (· + 1)).size, count sums.size,
    row [count (large.meet .bottom).size, count (ValueSet.meetAll [large, .bottom]).size,
      ← shown (large.meet .top), ← shown (large.join .bottom), ← shown (large.join .top)],
    count ValueSet.bottom.size, messageOf ValueSet.top.members]

/-- Elements of both lattices. -/
def lattices (n : Nat) : Except Fault Figure := do
  return row ((← flatLattice n) ++ (← setLattice n))

/-! ## 3. Variables -/

/-- The operations on two words. -/
def binary : List String :=
  ["ADD", "MUL", "SUB", "DIV", "SDIV", "MOD", "SMOD", "EXP", "LT", "GT", "SLT", "SGT", "EQ", "AND",
    "OR", "XOR", "BYTE"]

/-- The other operations, with the number of words they take. -/
def others : List (String × Nat) :=
  [("ADDMOD", 3), ("MULMOD", 3), ("ISZERO", 1), ("NOT", 1), ("SIGNEXTEND", 2)]

/-- A variable with the given values and no definition site. -/
def sampleVariable (values : List Int) : Variable :=
  .ofValues values Variable.defaultName Sites.bottom

/-- All operations on the variable that may be any number from one to `n`, and then what holds of
it and of some variables that do not depend on `n`. -/
def arithmetic (n : Nat) : Except Fault Figure := do
  let v := sampleVariable ((List.range' 1 n).map Int.ofNat)
  let pairs ← binary.mapM fun name => do
    let r ← Variable.arith name [v.values, v.values] Variable.resultName
    return row ([text name, count r.values.size] ++
      flags [r.values.isConst, r.values.isFinite, r.isTrue, r.isFalse] ++ [text r.render])
  let rest ← others.mapM fun (name, arity) => do
    let r ← Variable.arith name (List.replicate arity v.values) Variable.resultName
    return row [text name, count r.values.size]
  let unknown := Variable.top Variable.defaultName Sites.bottom
  let none := sampleVariable []
  let zero := sampleVariable [0]
  return row (pairs ++ rest ++
    [number? v.values.const?, count v.values.size,
      row [flag unknown.isTop, number? unknown.values.const?, flag unknown.isTrue,
        flag unknown.isFalse],
      row [count (v.meet none).values.size, count (Variable.meetAll [v, none]).values.size,
        count (v.join none).values.size],
      row (flags [v.sameValues v.copy, v.sameValues unknown, v.values.isFinite] ++
        [text (sampleVariable [0, 1, 2]).render]),
      text v.name, text v.render, number (Word.signed (Int.pow 2 255 + 7)),
      row [flag zero.isTrue, flag zero.isFalse, number? zero.values.const?, text zero.render]])

/-! ## 4. Stacks -/

/-- Copies and exchanges items from the top down to the eighth. -/
def shuffle (s : Stack Variable) : Except Fault (Stack Variable) :=
  (List.range' 1 8).foldlM (fun s k => do (← s.dup k).swap k) s

/-- A stack of `n` items, each with a value of its own. -/
def sampleStack (letter : String) (factor : Int) (n : Nat) : Stack Variable :=
  .ofItems ((List.range n).map fun (i : Nat) =>
    .ofValues [factor * i] (letter ++ toString i) Sites.bottom)

/-- A stack of `n` items that is shuffled and emptied beyond its bottom, and the lattice
operations on two stacks of that size. -/
def stacking (n : Nat) : Except Fault Figure := do
  let a := sampleStack "A" 1 n
  let s := ((← shuffle a).push (.top Variable.defaultName Sites.bottom)).toStandIns
  let (popped, _) := s.popMany (s.size + 2)
  let b := sampleStack "B" 2 n
  let met := a.meet b
  let copy := a.copy
  return row [count (s.size + 3), row (popped.map fun v => text v.name), count met.size,
    count (a.join b).size, count (Stack.joinAll [a, b]).size, flag (a.sameValues copy),
    text met.render, count copy.size, count (copy.setMaxSize 1).size]

end TraceLift.Trial
