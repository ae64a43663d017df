/-
# Sample traces

A family of made-up traces to try the library on.  A sample runs one contract that uses every
group of opcodes, does some arithmetic, and then makes calls one after the other.  The kinds of
call come in turn, and so do the ways in which the called contracts end.

The family has two parameters: how often the arithmetic is done, and how many calls are made.
-/
import TraceLift.Trace.Basic

namespace TraceLift.Sample

/-- An instruction with what was recorded of it; where it stands is found by laying code out. -/
structure Instruction where
  opcode : Opcode
  value : Option Int := none
  extra : Option Int := none

namespace Instruction

/-- An instruction without recorded values. -/
def plain (opcode : Opcode) : Instruction := { opcode }

/-- An instruction with one recorded value. -/
def recording (opcode : Opcode) (value : Int) : Instruction := { opcode, value := some value }

/-- The push of one byte. -/
def push1 (value : Int) : Instruction := recording (.push 1) value

/-- The number of bytes of an instruction. -/
def size (i : Instruction) : Nat := 1 + i.opcode.pushLength.toNat

end Instruction

open Instruction

/-- The number of bytes of code. -/
def codeSize (code : List Instruction) : Nat := (code.map size).foldl (· + ·) 0

/-- Lays code out from a program counter on. -/
def layOut (pc : Nat) : List Instruction → List TraceOp
  | [] => []
  | i :: rest =>
    { pc, opcode := i.opcode, value := i.value, extra := i.extra } :: layOut (pc + i.size) rest

/-! ## 1. The pieces -/

/-- The opcodes that read the environment; each records the same value. -/
def environment : List Instruction :=
  [Opcode.address, .origin, .caller, .callvalue, .calldatasize, .codesize, .gasprice,
    .returndatasize, .coinbase, .timestamp, .number, .difficulty, .gaslimit, .pc, .msize,
    .gas].flatMap fun op => [recording op 42, plain .pop]

/-- Reading from the world outside the contract. -/
def world : List Instruction :=
  [push1 0, recording .calldataload 123456, recording .balance 999, recording .extcodesize 10,
    recording .blockhash 77, push1 0, recording .sha3 555, plain .pop]

/-- Writing to memory and storage and reading it back. -/
def memory : List Instruction :=
  [push1 32, push1 0, plain .mstore, push1 9, push1 64, plain .mstore8, push1 0,
    recording .mload 32, push1 1, plain .sstore, push1 1, recording .sload 32, plain .pop]

/-- Copying into memory. -/
def copies : List Instruction :=
  [push1 4, push1 0, push1 96, recording .calldatacopy 0x12345678,
    push1 4, push1 0, push1 100, recording .codecopy 1,
    push1 4, push1 0, push1 104, recording .returndatacopy 2,
    push1 4, push1 0, push1 108, push1 0, recording .extcodecopy 3]

/-- Logging. -/
def logs : List Instruction :=
  [push1 0, push1 0, plain (.logN 0), push1 1, push1 0, push1 0, plain (.logN 1)]

/-- A jump and a conditional jump. -/
def jumps : List Instruction :=
  [recording (.push 2) 112, plain .jump, plain .jumpdest, push1 1, recording (.push 2) 119,
    plain .jumpi, plain .jumpdest]

/-- Moving items about on the stack. -/
def shuffle : List Instruction :=
  (List.range' 1 8).map (fun (n : Nat) => push1 n) ++
    (List.range' 1 8).map (fun n => plain (.dup n)) ++
    (List.range' 1 8).map (fun n => plain (.swap n)) ++ List.replicate 16 (plain .pop)

/-- What every sample starts with. -/
def opening : List Instruction :=
  [push1 96, push1 64, plain .mstore] ++ environment ++ world ++ memory ++ copies ++ logs ++
    jumps ++ shuffle

/-- Each arithmetic operation once. -/
def arithmetic : List Instruction :=
  [push1 7, push1 3, plain .add, push1 2, plain .mul, push1 5, plain .sub, push1 3, plain .div,
    push1 7, plain .sdiv, push1 4, plain .mod, push1 3, plain .smod, push1 2, push1 9,
    plain .addmod, push1 2, push1 6, plain .mulmod, push1 2, plain .exp, push1 1,
    plain .signextend, push1 8, plain .lt, push1 8, plain .gt, push1 8, plain .slt, push1 8,
    plain .sgt, push1 8, plain .eq, plain .iszero, push1 12, plain .and, push1 5, plain .or,
    push1 3, plain .xor, plain .not, push1 1, plain .byte, plain .pop]

/-- The arithmetic several times. -/
def arithmeticTimes (n : Nat) : List Instruction := (List.replicate n arithmetic).flatten

/-- The ways in which a called contract ends. -/
def endings : List (List Instruction) :=
  [[plain .stop], [push1 0, push1 0, plain .ret], [push1 0, push1 0, plain .revert],
    [recording .selfdestruct 0x1234]]

/-- The kinds of call. -/
def callKinds : List Instruction :=
  ([Opcode.call, .callcode, .delegatecall, .staticcall].map fun opcode =>
    { opcode, value := some 1, extra := some 0 }) ++
    [recording .create 123, recording .create2 123]

/-- An item of a list by its number, counted round and round. -/
def cycle {α : Type} (fallback : α) (l : List α) (n : Nat) : α := l.getD (n % l.length) fallback

/-! ## 2. Samples -/

/-- The code of the contract called by the call of a number. -/
def callee (arith number : Nat) : List Instruction :=
  push1 1 :: arithmeticTimes arith ++ [plain .pop] ++ cycle [] endings number

/-- The call of a number. -/
def callOf (number : Nat) : Instruction := cycle (plain .stop) callKinds number

/-- The pushes of the operands of a call. -/
def operandsOf (call : Instruction) : List Instruction :=
  List.replicate call.opcode.pops.toNat (push1 0)

/-- The trace of so many calls from a program counter on, the first one having a number. -/
def callsFrom (arith : Nat) : Nat → Nat → Nat → List TraceOp
  | pc, _, 0 => layOut pc [plain .invalid]
  | pc, number, calls + 1 =>
    let call := callOf number
    let before := operandsOf call
    let after := [call, plain .pop]
    layOut pc before ++ layOut 0 (callee arith number) ++ layOut (pc + codeSize before) after ++
      callsFrom arith (pc + codeSize before + codeSize after) (number + 1) calls

/-- The sample that does the arithmetic `arith` times, in the first contract and in each called
one, and makes `calls` calls. -/
def trace (arith calls : Nat) : List TraceOp :=
  let start := opening ++ arithmeticTimes arith
  layOut 0 start ++ callsFrom arith (codeSize start) 0 calls

/-- The lines of a sample. -/
def lines (arith calls : Nat) : List String := (trace arith calls).map (·.line)

end TraceLift.Sample
