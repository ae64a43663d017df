/-
# Traces

A trace is the list of operations that a transaction executed, across all contracts it called.
Each operation has its program counter, its opcode and, where the run had to tell, one or two
recorded values.  In text a trace has one operation to a line, as `pc;NAME;value,extra`.

Reading undoes writing: `parseLine (line op)` is `op` again.
-/
import TraceLift.Opcode.Basic
import TraceLift.Text.Lines

namespace TraceLift

/-- One executed operation. -/
structure TraceOp where
  pc : Int
  opcode : Opcode
  /-- The recorded value. -/
  value : Option Int := none
  /-- The second recorded value of a call. -/
  extra : Option Int := none
  deriving DecidableEq

namespace TraceOp

/-- The text of an operation. -/
def render (op : TraceOp) : String :=
  toString op.pc ++ " " ++ op.opcode.name ++
    match op.value with
    | none => ""
    | some v =>
      " " ++ Text.hex v ++
        match op.extra with
        | none => ""
        | some x => " " ++ Text.hex x

/-! ## 1. Writing trace lines -/

/-- The text of the recorded values; `spell` is how a single one is written. -/
def valuesText (spell : Int → String) : Option Int → Option Int → String
  | none, _ => ""
  | some v, some x => toString v ++ "," ++ toString x
  | some v, none => spell v

/-- The line of an operation, given by its name. -/
def lineWith (spell : Int → String) (pc : Int) (name : String) (value extra : Option Int) : String :=
  toString pc ++ ";" ++ name ++ ";" ++ valuesText spell value extra

/-- The line of an operation, given by its name.  The one recorded value of `SELFDESTRUCT` is an
address and is written in hexadecimal; all other values are decimal. -/
def lineOf (pc : Int) (name : String) (value extra : Option Int) : String :=
  lineWith (if name = "SELFDESTRUCT" then Text.hex else toString) pc name value extra

/-- The line of an operation. -/
def line (op : TraceOp) : String := lineOf op.pc op.opcode.name op.value op.extra

/-! ## 2. Reading trace lines -/

/-- Reads an integer, or says that it is none. -/
def readInt (read : String → Option Int) (s : String) : Except Fault Int :=
  match read s with
  | some i => .ok i
  | none => .error .badNumeral

/-- Reads the fields of a line.  With a value and no second one the opcode is looked up before
the program counter is read, and otherwise after it. -/
def ofFields (pc name args : String) : Except Fault TraceOp :=
  if args = "" then do
    let pc ← readInt Text.readDecimal? pc
    let opcode ← Opcode.ofName name
    return { pc, opcode }
  else if args.toList.contains ',' then
    match Text.split ',' (Text.strip args) with
    | v :: x :: _ => do
      let pc ← readInt Text.readDecimal? pc
      let opcode ← Opcode.ofName name
      let v ← readInt Text.readDecimal? v
      let x ← readInt Text.readDecimal? x
      return { pc, opcode, value := some v, extra := some x }
    | _ => .error .indexOutOfRange
  else do
    let opcode ← Opcode.ofName name
    if opcode.name = Opcode.selfdestruct.name then
      let v ← readInt Text.readMarked? args
      let pc ← readInt Text.readDecimal? pc
      return { pc, opcode, value := some v }
    else
      let pc ← readInt Text.readDecimal? pc
      let v ← readInt Text.readDecimal? args
      return { pc, opcode, value := some v }

/-- Reads a line that is not blank. -/
def parseLine (s : String) : Except Fault TraceOp :=
  match Text.split ';' s with
  | pc :: name :: args :: _ => ofFields pc name args
  | _ => .error .indexOutOfRange

/-- Reads the lines of a trace; blank lines are passed over. -/
def parseLines : List String → Except Fault (List TraceOp)
  | [] => .ok []
  | l :: ls =>
    let s := Text.strip l
    if s = "" then parseLines ls
    else do
      let op ← parseLine s
      let ops ← parseLines ls
      return op :: ops

end TraceOp

end TraceLift
