import TraceLift.Block.Head
import TraceLift.CommandLine.Run
import TraceLift.CommandLine.Words
import TraceLift.Directory
import TraceLift.Draw
import TraceLift.Facts
import TraceLift.Fault
import TraceLift.Graph.Basic
import TraceLift.Graph.Copy
import TraceLift.Graph.Edit
import TraceLift.Graph.Functions
import TraceLift.Graph.Reach
import TraceLift.Graph.Text
import TraceLift.Lattice.Flat
import TraceLift.Lattice.IntSet
import TraceLift.Lattice.ValueSet
import TraceLift.Main
import TraceLift.Opcode.Basic
import TraceLift.Order.Sort
import TraceLift.Page
import TraceLift.Proofs.BlockSteps
import TraceLift.Proofs.ByteArrays
import TraceLift.Proofs.CallRelations
import TraceLift.Proofs.Causality
import TraceLift.Proofs.Closure
import TraceLift.Proofs.Computations
import TraceLift.Proofs.ConcreteRun
import TraceLift.Proofs.Converts
import TraceLift.Proofs.CopiedBlocks
import TraceLift.Proofs.Copying
import TraceLift.Proofs.DefinitionSites
import TraceLift.Proofs.DirectCalls
import TraceLift.Proofs.Edges
import TraceLift.Proofs.Editing
import TraceLift.Proofs.EntryStack
import TraceLift.Proofs.FactFiles
import TraceLift.Proofs.FeasibleRuns
import TraceLift.Proofs.Fixpoint
import TraceLift.Proofs.Folding
import TraceLift.Proofs.FrameStacks
import TraceLift.Proofs.FunctionBodies
import TraceLift.Proofs.GraphOfTrace
import TraceLift.Proofs.Isolation
import TraceLift.Proofs.LastOperation
import TraceLift.Proofs.LatticeFolds
import TraceLift.Proofs.Legal
import TraceLift.Proofs.LiftedArithmetic
import TraceLift.Proofs.LiftedJoins
import TraceLift.Proofs.Lifting
import TraceLift.Proofs.MachineWords
import TraceLift.Proofs.MemoryWrites
import TraceLift.Proofs.Nesting
import TraceLift.Proofs.Numerals
import TraceLift.Proofs.OperandTables
import TraceLift.Proofs.Outline
import TraceLift.Proofs.Partition
import TraceLift.Proofs.Pruning
import TraceLift.Proofs.Reaching
import TraceLift.Proofs.ReadBack
import TraceLift.Proofs.RepeatedBlocks
import TraceLift.Proofs.Rows
import TraceLift.Proofs.SafeExtraction
import TraceLift.Proofs.SampleGraphs
import TraceLift.Proofs.SampleRuns
import TraceLift.Proofs.SavedSettings
import TraceLift.Proofs.Scan
import TraceLift.Proofs.SearchesEnd
import TraceLift.Proofs.Settled
import TraceLift.Proofs.SingleAssignment
import TraceLift.Proofs.Sorting
import TraceLift.Proofs.StackCapacity
import TraceLift.Proofs.StackLattice
import TraceLift.Proofs.StackMachine
import TraceLift.Proofs.StackMoves
import TraceLift.Proofs.TraceLines
import TraceLift.Proofs.Turns
import TraceLift.Proofs.UnknownOperands
import TraceLift.Proofs.ValueLattice
import TraceLift.Proofs.WordBytes
import TraceLift.Proofs.WordRegisters
import TraceLift.Registers
import TraceLift.Sample.Trace
import TraceLift.Settings.Basic
import TraceLift.Settings.Ini
import TraceLift.Stack.Basic
import TraceLift.Stack.Lattice
import TraceLift.Table
import TraceLift.Tac.Convert
import TraceLift.Tac.Fold
import TraceLift.Tac.Memory
import TraceLift.Tac.Op
import TraceLift.Tac.Store
import TraceLift.Text.Case
import TraceLift.Text.Cased
import TraceLift.Text.Lines
import TraceLift.Text.Numeral
import TraceLift.Text.Quoted
import TraceLift.Trace.Basic
import TraceLift.Trace.Blocks
import TraceLift.Trial.Basic
import TraceLift.Trial.Figure
import TraceLift.Trial.Functions
import TraceLift.Trial.Graphs
import TraceLift.Trial.Options
import TraceLift.Trial.Values
import TraceLift.Variable
import TraceLift.VariableOps
import TraceLift.Visit
import TraceLift.Word.Arith
