/-
# Opcodes

An opcode has a name, a code, and the number of stack items it takes and leaves.  Two opcodes
are the same when their codes are, whatever their names.  The classes of opcodes follow two
conventions: those that say where an opcode's value comes from (`readsEnvironment`,
`isMessageCall`, …) go by name, and the families of consecutive codes (`isPush`, `isDup`, …) go
by code.
-/
import TraceLift.Fault
import TraceLift.Text.Case
import TraceLift.Text.Numeral

namespace TraceLift

/-- An instruction of the machine, or one of the few that only three-address code has. -/
structure Opcode where
  /-- The mnemonic. -/
  name : String
  /-- The instruction byte; negative for the opcodes of three-address code. -/
  code : Int
  /-- How many stack items the instruction takes. -/
  pops : Int
  /-- How many stack items it leaves. -/
  pushes : Int
  deriving DecidableEq

namespace Opcode

/-! ## 1. The table -/

def stop : Opcode := ⟨"STOP", 0x00, 0, 0⟩
def add : Opcode := ⟨"ADD", 0x01, 2, 1⟩
def mul : Opcode := ⟨"MUL", 0x02, 2, 1⟩
def sub : Opcode := ⟨"SUB", 0x03, 2, 1⟩
def div : Opcode := ⟨"DIV", 0x04, 2, 1⟩
def sdiv : Opcode := ⟨"SDIV", 0x05, 2, 1⟩
def mod : Opcode := ⟨"MOD", 0x06, 2, 1⟩
def smod : Opcode := ⟨"SMOD", 0x07, 2, 1⟩
def addmod : Opcode := ⟨"ADDMOD", 0x08, 3, 1⟩
def mulmod : Opcode := ⟨"MULMOD", 0x09, 3, 1⟩
def exp : Opcode := ⟨"EXP", 0x0a, 2, 1⟩
def signextend : Opcode := ⟨"SIGNEXTEND", 0x0b, 2, 1⟩

def lt : Opcode := ⟨"LT", 0x10, 2, 1⟩
def gt : Opcode := ⟨"GT", 0x11, 2, 1⟩
def slt : Opcode := ⟨"SLT", 0x12, 2, 1⟩
def sgt : Opcode := ⟨"SGT", 0x13, 2, 1⟩
def eq : Opcode := ⟨"EQ", 0x14, 2, 1⟩
def iszero : Opcode := ⟨"ISZERO", 0x15, 1, 1⟩
def and : Opcode := ⟨"AND", 0x16, 2, 1⟩
def or : Opcode := ⟨"OR", 0x17, 2, 1⟩
def xor : Opcode := ⟨"XOR", 0x18, 2, 1⟩
def not : Opcode := ⟨"NOT", 0x19, 1, 1⟩
def byte : Opcode := ⟨"BYTE", 0x1a, 2, 1⟩

def sha3 : Opcode := ⟨"SHA3", 0x20, 2, 1⟩

def address : Opcode := ⟨"ADDRESS", 0x30, 0, 1⟩
def balance : Opcode := ⟨"BALANCE", 0x31, 1, 1⟩
def origin : Opcode := ⟨"ORIGIN", 0x32, 0, 1⟩
def caller : Opcode := ⟨"CALLER", 0x33, 0, 1⟩
def callvalue : Opcode := ⟨"CALLVALUE", 0x34, 0, 1⟩
def calldataload : Opcode := ⟨"CALLDATALOAD", 0x35, 1, 1⟩
def calldatasize : Opcode := ⟨"CALLDATASIZE", 0x36, 0, 1⟩
def calldatacopy : Opcode := ⟨"CALLDATACOPY", 0x37, 3, 0⟩
def codesize : Opcode := ⟨"CODESIZE", 0x38, 0, 1⟩
def codecopy : Opcode := ⟨"CODECOPY", 0x39, 3, 0⟩
def gasprice : Opcode := ⟨"GASPRICE", 0x3a, 0, 1⟩
def extcodesize : Opcode := ⟨"EXTCODESIZE", 0x3b, 1, 1⟩
def extcodecopy : Opcode := ⟨"EXTCODECOPY", 0x3c, 4, 0⟩
def returndatasize : Opcode := ⟨"RETURNDATASIZE", 0x3d, 0, 1⟩
def returndatacopy : Opcode := ⟨"RETURNDATACOPY", 0x3e, 3, 0⟩

def blockhash : Opcode := ⟨"BLOCKHASH", 0x40, 1, 1⟩
def coinbase : Opcode := ⟨"COINBASE", 0x41, 0, 1⟩
def timestamp : Opcode := ⟨"TIMESTAMP", 0x42, 0, 1⟩
def number : Opcode := ⟨"NUMBER", 0x43, 0, 1⟩
def difficulty : Opcode := ⟨"DIFFICULTY", 0x44, 0, 1⟩
def gaslimit : Opcode := ⟨"GASLIMIT", 0x45, 0, 1⟩

def pop : Opcode := ⟨"POP", 0x50, 1, 0⟩
def mload : Opcode := ⟨"MLOAD", 0x51, 1, 1⟩
def mstore : Opcode := ⟨"MSTORE", 0x52, 2, 0⟩
def mstore8 : Opcode := ⟨"MSTORE8", 0x53, 2, 0⟩
def sload : Opcode := ⟨"SLOAD", 0x54, 1, 1⟩
def sstore : Opcode := ⟨"SSTORE", 0x55, 2, 0⟩
def jump : Opcode := ⟨"JUMP", 0x56, 1, 0⟩
def jumpi : Opcode := ⟨"JUMPI", 0x57, 2, 0⟩
def pc : Opcode := ⟨"PC", 0x58, 0, 1⟩
def msize : Opcode := ⟨"MSIZE", 0x59, 0, 1⟩
def gas : Opcode := ⟨"GAS", 0x5a, 0, 1⟩
def jumpdest : Opcode := ⟨"JUMPDEST", 0x5b, 0, 0⟩

/-- `PUSHn`, for `n` from 1 to 32. -/
def push (n : Nat) : Opcode := ⟨"PUSH" ++ toString n, 0x5f + n, 0, 1⟩

/-- `DUPn`, for `n` from 1 to 16. -/
def dup (n : Nat) : Opcode := ⟨"DUP" ++ toString n, 0x7f + n, n, n + 1⟩

/-- `SWAPn`, for `n` from 1 to 16. -/
def swap (n : Nat) : Opcode := ⟨"SWAP" ++ toString n, 0x8f + n, n + 1, n + 1⟩

/-- `LOGn`, for `n` from 0 to 4. -/
def logN (n : Nat) : Opcode := ⟨"LOG" ++ toString n, 0xa0 + n, n + 2, 0⟩

def create : Opcode := ⟨"CREATE", 0xf0, 3, 1⟩
def call : Opcode := ⟨"CALL", 0xf1, 7, 1⟩
def callcode : Opcode := ⟨"CALLCODE", 0xf2, 7, 1⟩
def ret : Opcode := ⟨"RETURN", 0xf3, 2, 0⟩
def delegatecall : Opcode := ⟨"DELEGATECALL", 0xf4, 6, 1⟩
def create2 : Opcode := ⟨"CREATE2", 0xf5, 4, 1⟩
def staticcall : Opcode := ⟨"STATICCALL", 0xfa, 6, 1⟩
def revert : Opcode := ⟨"REVERT", 0xfd, 2, 0⟩
def invalid : Opcode := ⟨"INVALID", 0xfe, 0, 0⟩
def selfdestruct : Opcode := ⟨"SELFDESTRUCT", 0xff, 1, 0⟩

/-- Does nothing; stands for a block whose instructions leave no three-address code. -/
def nop : Opcode := ⟨"NOP", -1, 0, 0⟩
/-- Assigns a constant. -/
def const : Opcode := ⟨"CONST", -2, 0, 0⟩
/-- Writes a log entry with any number of topics. -/
def log : Opcode := ⟨"LOG", -3, 0, 0⟩
/-- Stops with an exception. -/
def throw : Opcode := ⟨"THROW", -4, 0, 0⟩
/-- Stops with an exception if its condition holds. -/
def throwi : Opcode := ⟨"THROWI", -5, 0, 0⟩

/-- All opcodes, by ascending code within the machine's families, three-address code last. -/
def table : List Opcode :=
  [stop, add, mul, sub, div, sdiv, mod, smod, addmod, mulmod, exp, signextend,
    lt, gt, slt, sgt, eq, iszero, and, or, xor, not, byte, sha3,
    address, balance, origin, caller, callvalue, calldataload, calldatasize, calldatacopy,
    codesize, codecopy, gasprice, extcodesize, extcodecopy, returndatasize, returndatacopy,
    blockhash, coinbase, timestamp, number, difficulty, gaslimit,
    pop, mload, mstore, mstore8, sload, sstore, jump, jumpi, pc, msize, gas, jumpdest] ++
  (List.range' 1 32).map push ++ (List.range' 1 16).map dup ++ (List.range' 1 16).map swap ++
  (List.range 5).map logN ++
  [create, call, callcode, ret, delegatecall, create2, staticcall, revert, invalid,
    selfdestruct, nop, const, log, throw, throwi]

/-- The names of the table and the opcodes they stand for, with the second name that
`GASPRICE` goes by. -/
def names : List (String × Opcode) :=
  table.map (fun op => (op.name, op)) ++ [("TXGASPRICE", gasprice)]

/-! ## 2. Looking opcodes up -/

/-- The opcode of a name, in any case. -/
def ofName (name : String) : Except Fault Opcode :=
  let key := Text.upper name
  match names.lookup key with
  | some op => .ok op
  | none => .error (.unknownOpcodeName key)

/-- The opcode of the table with a code. -/
def ofCode? (code : Int) : Option Opcode := table.find? (·.code == code)

/-- The opcode of a code. -/
def ofCode (code : Int) : Except Fault Opcode :=
  match ofCode? code with
  | some op => .ok op
  | none => .error (.unknownOpcodeCode (Text.hexUpper code))

/-- A stand-in for a code that the table does not have. -/
def missing (code : Int) : Except Fault Opcode :=
  match ofCode? code with
  | some _ => .error .opcodeExists
  | none => .ok ⟨"MISSING", code, 0, 0⟩

/-! ## 3. Classes by name -/

/-- Takes nothing from the stack and leaves a value of the environment. -/
def readsEnvironment (op : Opcode) : Bool :=
  ["ADDRESS", "ORIGIN", "CALLER", "CALLVALUE", "CALLDATASIZE", "CODESIZE", "GASPRICE",
    "RETURNDATASIZE", "COINBASE", "TIMESTAMP", "NUMBER", "DIFFICULTY", "GASLIMIT", "PC",
    "MSIZE", "GAS"].contains op.name

/-- Takes operands and leaves a value that only the run itself knows. -/
def readsWorld (op : Opcode) : Bool :=
  ["SHA3", "BALANCE", "CALLDATALOAD", "EXTCODESIZE", "BLOCKHASH"].contains op.name

/-- Loads a storage slot. -/
def isStorageLoad (op : Opcode) : Bool := op.name == "SLOAD"

/-- Stores a stack item in memory or storage. -/
def isStore (op : Opcode) : Bool := ["MSTORE", "MSTORE8", "SSTORE"].contains op.name

/-- Copies bytes known only to the run into memory. -/
def isCopy (op : Opcode) : Bool :=
  ["CALLDATACOPY", "CODECOPY", "EXTCODECOPY", "RETURNDATACOPY"].contains op.name

/-- Calls another contract. -/
def isMessageCall (op : Opcode) : Bool :=
  ["CALL", "CALLCODE", "DELEGATECALL", "STATICCALL"].contains op.name

/-- Creates a contract. -/
def isCreation (op : Opcode) : Bool := ["CREATE", "CREATE2"].contains op.name

/-- Opens a frame: a call or a creation. -/
def opensFrame (op : Opcode) : Bool := op.isMessageCall || op.isCreation

/-! ## 4. Classes by code -/

/-- The net effect on the size of the stack. -/
def stackDelta (op : Opcode) : Int := op.pushes - op.pops

/-- Whether two opcodes have one code. -/
def same (a b : Opcode) : Bool := a.code == b.code

def isPush (op : Opcode) : Bool := 0x60 ≤ op.code && op.code ≤ 0x7f

def isDup (op : Opcode) : Bool := 0x80 ≤ op.code && op.code ≤ 0x8f

def isSwap (op : Opcode) : Bool := 0x90 ≤ op.code && op.code ≤ 0x9f

def isLog (op : Opcode) : Bool := 0xa0 ≤ op.code && op.code ≤ 0xa4

/-- The result follows from the operands alone. -/
def isArithmetic (op : Opcode) : Bool :=
  (0x01 ≤ op.code && op.code ≤ 0x0b) || (0x10 ≤ op.code && op.code ≤ 0x1a)

def isMemory (op : Opcode) : Bool := 0x51 ≤ op.code && op.code ≤ 0x53

def isStorage (op : Opcode) : Bool := 0x54 ≤ op.code && op.code ≤ 0x55

/-- The code of one of the four calls. -/
def isCall (op : Opcode) : Bool := [0xf1, 0xf2, 0xf4, 0xfa].contains op.code

/-- The table has no opcode of this code. -/
def isMissing (op : Opcode) : Bool := (ofCode? op.code).isNone

def isInvalid (op : Opcode) : Bool := op.code == 0xfe || op.isMissing

/-- Ends the frame. -/
def halts (op : Opcode) : Bool := [0x00, 0xf3, 0xff, -4, 0xfd].contains op.code || op.isInvalid

/-- Ends the frame, or may. -/
def possiblyHalts (op : Opcode) : Bool := op.halts || op.code == -5

/-- Ends the frame by an exception, or may. -/
def isException (op : Opcode) : Bool := [-4, -5, 0xfd].contains op.code || op.isInvalid

/-- Continues elsewhere than at the next instruction, or may. -/
def altersFlow (op : Opcode) : Bool := [0x56, 0x57].contains op.code || op.possiblyHalts

/-- The number of bytes that a push carries. -/
def pushLength (op : Opcode) : Int := if op.isPush then op.code - 0x60 + 1 else 0

/-- The number of topics of a log. -/
def logLength (op : Opcode) : Int := if op.isLog then op.code - 0xa0 else 0

/-- The distance taken to lie between an instruction and the next: one, and for a push one more
than the first digit of its width.  So `PUSH10` to `PUSH19` count as two long, and the
instruction after them does not count as the next one. -/
def pcGap (op : Opcode) : Except Fault Int :=
  if op.isPush then
    match op.name.toList.drop 4 with
    | [] => .error .indexOutOfRange
    | c :: _ =>
      match Text.readDecimal? (String.singleton c) with
      | some n => .ok (n + 1)
      | none => .error .badNumeral
  else .ok 1

/-- The modulus that integers are hashed by. -/
def hashModulus : Nat := Nat.pow 2 61 - 1

/-- The hash of an opcode: its code modulo a prime, the sign kept, with `-1` avoided. -/
def hashCode (op : Opcode) : Int :=
  let h := op.code.natAbs % hashModulus
  let signed : Int := if op.code < 0 then -(h : Int) else h
  if signed = -1 then -2 else signed

end Opcode

end TraceLift
