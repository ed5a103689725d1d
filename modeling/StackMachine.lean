import StackMachine.A64.Instruction
import StackMachine.A64.Lowering
import StackMachine.Bytecode.Builder
import StackMachine.Bytecode.Instruction
import StackMachine.Bytecode.Opcode
import StackMachine.Code.Buffer
import StackMachine.Code.Fixup
import StackMachine.Code.Listing
import StackMachine.Code.LiteralPool
import StackMachine.Code.Pages
import StackMachine.Code.RegisterPool
import StackMachine.CommandLine
import StackMachine.Double.Basic
import StackMachine.Double.Text
import StackMachine.Engine.Call
import StackMachine.Engine.Frame
import StackMachine.Engine.Interpreter
import StackMachine.Engine.RuntimeCall
import StackMachine.Engine.Session
import StackMachine.Engine.State
import StackMachine.Fault
import StackMachine.Heap.Array
import StackMachine.Heap.Block
import StackMachine.Heap.CharArray
import StackMachine.Heap.Element
import StackMachine.Main
import StackMachine.Native.Backend
import StackMachine.Native.Frame
import StackMachine.Native.Generator
import StackMachine.Native.Object
import StackMachine.Native.Operation
import StackMachine.Native.Processor
import StackMachine.Numeral
import StackMachine.OperandStack
import StackMachine.Program
import StackMachine.Sample
import StackMachine.Settings
import StackMachine.Target
import StackMachine.Text
import StackMachine.Thread
import StackMachine.Toml
import StackMachine.Word
import StackMachine.X64.Instruction
import StackMachine.X64.Lowering
import StackMachine.Proofs.Addressing
import StackMachine.Proofs.Effects
import StackMachine.Proofs.Locals
import StackMachine.Proofs.Native.Arithmetic
import StackMachine.Proofs.Native.Boundary
import StackMachine.Proofs.IdealRun
import StackMachine.Proofs.Native.Targets
import StackMachine.Proofs.Frames
import StackMachine.Proofs.Native.Simulation
import StackMachine.Proofs.Native.Agreement
import StackMachine.Proofs.Native.Overflow
import StackMachine.Proofs.Native.Landing
import StackMachine.Proofs.Native.LocalSlots
import StackMachine.Proofs.Native.Ownership
import StackMachine.Proofs.Native.Reservations
import StackMachine.Proofs.Pooling
import StackMachine.Proofs.Copying
import StackMachine.Proofs.CutBack
import StackMachine.Proofs.Unwinding
import StackMachine.Proofs.Propagation
import StackMachine.Proofs.Shapes
import StackMachine.Proofs.FrameAccounts
import StackMachine.Proofs.Settling
import StackMachine.Proofs.X64.Decoding
import StackMachine.Proofs.Allocation
import StackMachine.Proofs.Indexing
import StackMachine.Proofs.Memory
import StackMachine.Proofs.Native.ElementStores
import StackMachine.Proofs.X64.Machine
import StackMachine.Proofs.X64.Selection
import StackMachine.Proofs.X64.ElementStores
import StackMachine.Proofs.Resolution
import StackMachine.Proofs.ByteMemory
import StackMachine.Proofs.A64.Format
import StackMachine.Proofs.A64.Machine
import StackMachine.Proofs.A64.Constants
import StackMachine.Proofs.A64.Literals
import StackMachine.Proofs.A64.Selection
import StackMachine.Proofs.Native.Integers
import StackMachine.Proofs.Native.FrameModel
import StackMachine.Proofs.X64.Frames
import StackMachine.Proofs.A64.Frames
import StackMachine.Proofs.Native.Frames
import StackMachine.Proofs.Hierarchy
import StackMachine.Proofs.Rows
import StackMachine.Proofs.Moving
import StackMachine.Proofs.Numerals
import StackMachine.Proofs.Texts
import StackMachine.Proofs.Accounting
import StackMachine.Proofs.CodeMemory
import StackMachine.Proofs.Doubles
import StackMachine.Proofs.A64.Doubles
import StackMachine.Proofs.A64.Truncation
import StackMachine.Proofs.RegisterLeases
import StackMachine.Proofs.Threads
