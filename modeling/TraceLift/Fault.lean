/-
# Causes of failure

Every operation of the library that can fail says why with a `Fault`.  The wording of a
fault is decided here and nowhere else: `Fault.message` gives the text of the causes that
carry one, and `none` for those that are told apart by their cause alone.
-/

namespace TraceLift

/-- Why an operation did not produce a result. -/
inductive Fault where
  /-- No opcode has this (upper-case) name. -/
  | unknownOpcodeName (name : String)
  /-- No opcode has this code, whose upper-case hexadecimal text is given. -/
  | unknownOpcodeCode (digits : String)
  /-- A code that is already taken was declared missing. -/
  | opcodeExists
  /-- A block was given an entry below zero. -/
  | negativeEntry
  /-- A block was given an exit below zero. -/
  | negativeExit
  /-- A block without an entry was asked for its identifier. -/
  | unknownEntry
  /-- An operation's argument holds nothing. -/
  | blankArgument
  /-- The members of the universal set were asked for. -/
  | topEnumerated
  /-- A visitor has no method for an object of this class. -/
  | noVisitMethod (className : String)
  /-- The general visitor was created by itself. -/
  | abstractVisitor
  /-- The program ends with this exit code. -/
  | exit (code : Nat)
  /-- A text does not denote an integer in the base at hand. -/
  | badNumeral
  /-- An integer has too many digits to be written in decimal. -/
  | tooManyDigits
  /-- A power of zero with a negative exponent. -/
  | divisionByZero
  /-- A power that is not an integer. -/
  | notAnInteger
  /-- A shift by a negative distance. -/
  | negativeShift
  /-- A field of a negative number of digits. -/
  | negativeWidth
  /-- The block to remove is not in the graph. -/
  | absentBlock
  /-- The greatest of no items. -/
  | emptyMaximum
  /-- A block whose exit lies before its entry has no length. -/
  | negativeLength
  /-- An operation that must carry a recorded value carries none. -/
  | missingValue
  /-- A function was given the wrong number of arguments. -/
  | wrongArity
  /-- A quantity that is not known was to be printed or compared. -/
  | unknownQuantity
  /-- The fold of no elements, without a start. -/
  | emptyFold
  /-- A variable whose name is no text was to be shown or hashed. -/
  | badName
  /-- There is no arithmetic function of this name. -/
  | unknownFunction
  /-- A copy operation has no recorded bytes to write. -/
  | noRecordedBytes
  /-- A block was never told where it falls through to. -/
  | noFallthrough
  /-- The signed reading of a variable's values is not defined. -/
  | noComplement
  /-- A definition site that is a bare location has no call depth. -/
  | siteWithoutDepth
  /-- An operation that is no assignment has no result. -/
  | noResult
  /-- A location outside every block. -/
  | noBlock
  /-- The last operation of a block is missing. -/
  | noLastOperation
  /-- There is no earlier block whose exit stack could be consulted. -/
  | noPreviousBlock
  /-- No function extraction has been made. -/
  | noExtraction
  /-- The graph cannot be handed to the drawing library. -/
  | noDrawing
  /-- A value does not fit the bytes it is written to. -/
  | doesNotFit
  /-- A length beyond what can be addressed. -/
  | tooLong
  /-- A length that can be addressed but not held. -/
  | outOfMemory
  /-- The last element of an empty list. -/
  | emptyPop
  /-- A position outside a list. -/
  | indexOutOfRange
  /-- A block resumes no suspended frame and opens none. -/
  | noFrame
  /-- An operation is referred to before any was seen. -/
  | noOperation
  /-- A search was given too few rounds to come to an end. -/
  | unfinished
  /-- An option stands before the first section. -/
  | missingSectionHeader
  /-- A line is neither a section nor an option. -/
  | badIniLine
  /-- A section is opened twice. -/
  | duplicateSection
  /-- An option is set twice. -/
  | duplicateOption
  /-- There is no section of this name. -/
  | noSection
  /-- There is no option of this name. -/
  | noOption
  /-- A percent sign that starts no reference. -/
  | badInterpolation
  /-- A reference to an option that does not exist. -/
  | missingInterpolation
  /-- References that go too deep. -/
  | deepInterpolation
  /-- A register that holds nothing. -/
  | noSuchRegister
  /-- A file that could not be read or written. -/
  | fileUnavailable
  /-- A file that does not exist. -/
  | noSuchFile
  /-- A folder was to be made where there is a file. -/
  | fileExists
  /-- A file stands where a folder is needed. -/
  | notAFolder
  /-- A folder stands where a file is needed. -/
  | isAFolder
  /-- A file name holds the zero character. -/
  | zeroInName
  deriving DecidableEq

/-- The text of a fault, for the causes that have one. -/
def Fault.message : Fault → Option String
  | .unknownOpcodeName name => some ("No opcode named '" ++ name ++ "'.")
  | .unknownOpcodeCode digits => some ("No opcode with value '0x" ++ digits ++ "'.")
  | .opcodeExists => some "Opcode \x7b\x7d exists."
  | .negativeEntry => some "entry must be a positive integer or zero"
  | .negativeExit => some "exit must be a positive integer or zero"
  | .unknownEntry => some "Can't compute ident() for block with unknown entry"
  | .blankArgument => some "TAC Argument has no value."
  | .topEnumerated => some "Top lattice element cannot be iterated."
  | .noVisitMethod className =>
    some ("could not find a visit method for target type " ++ className)
  | .abstractVisitor => some "DynamicVisitor must be sub-classed"
  | .exit code => some (toString code)
  | _ => none

end TraceLift
