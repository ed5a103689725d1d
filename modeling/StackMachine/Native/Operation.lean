import StackMachine.Double.Basic
import StackMachine.Heap.Element
import StackMachine.Code.Fixup
import StackMachine.Native.Frame

/-!
# Native operations

The code generator writes a method as a list of operations on registers, frame slots, memory and the
operand stack.  The operations are the same for every target; a target only supplies the registers.
They are lowered to machine instructions, and they are also what a compiled method executes.
-/

namespace StackMachine.Native

/-- The second operand of an integer operation. -/
inductive Src (γ : Type) where
  | reg (reg : γ)
  | imm (value : Word)
  | slot (index : Nat)
  deriving DecidableEq, Repr

/-- Operations over integer registers `γ` and float registers `φ`; a jump carries its target. -/
inductive Operation (γ φ : Type) where
  /-- Opens the frame, stores the entry arguments and clears the locals. -/
  | prologue (locals : Nat)
  /-- Loads the return value and goes to the end of the method. -/
  | status (value : Word)
  /-- Closes the frame and returns. -/
  | teardown
  /-- The place a target stands for. -/
  | bind (target : JumpTarget)
  | jump (target : JumpTarget)
  | loadImm (dst : γ) (value : Word)
  | loadFloatImm (dst : φ) (value : Double)
  | move (dst src : γ)
  | moveFloat (dst src : φ)
  | int (op : IntOp) (dst : γ) (src : Src γ)
  | not (dst : γ)
  /-- Divides, or jumps when the divisor is zero. -/
  | divide (remainder : Bool) (dst : γ) (src : Src γ) (onZero : JumpTarget)
  | compare (left : γ) (right : Src γ)
  /-- The truth value of the last comparison. -/
  | setCond (dst : γ) (relation : Comparison)
  /-- Jumps when the last comparison holds. -/
  | branch (relation : Comparison) (target : JumpTarget)
  | floatCompareSet (relation : Comparison) (dst : γ) (left right : φ)
  /-- Jumps when the truth value of the comparison is `expected`. -/
  | floatCompareBranch (relation : Comparison) (expected : Bool) (left right : φ)
      (target : JumpTarget)
  | float (op : FloatOp) (dst src : φ)
  /-- Jumps when the value is one of the zeros. -/
  | floatZeroBranch (src : φ) (target : JumpTarget)
  | intToFloat (dst : φ) (src : γ)
  | floatToInt (dst : γ) (src : φ)
  | bitsToFloat (dst : φ) (src : γ)
  | bitsToInt (dst : γ) (src : φ)
  | load (width : Width) (dst base : γ) (disp : Int32)
  | store (width : Width) (base : γ) (disp : Int32) (src : Src γ)
  | loadFloat (dst : φ) (base : γ) (disp : Int32)
  | storeFloat (base : γ) (disp : Int32) (src : φ)
  | loadSlot (dst : γ) (slot : Nat)
  | storeSlot (slot : Nat) (src : Src γ)
  | loadFloatSlot (dst : φ) (slot : Nat)
  | storeFloatSlot (slot : Nat) (src : φ)
  /-- Jumps when the handle is nil. -/
  | nilBranch (reg : γ) (target : JumpTarget)
  /-- Jumps when the index is negative, or not below the element count. -/
  | boundsBranch (index array : γ) (under above : JumpTarget)
  /-- Multiplies the index by an extent of the array. -/
  | scaleByExtent (index array : γ) (dim : Nat)
  /-- Turns the index into the address of the element. -/
  | elementAddress (index array : γ) (shift : UInt8) (disp : Int32)
  | push (src : Src γ)
  | pushFloat (src : φ)
  | pop (dst : γ)
  | popFloat (dst : φ)
  | dropTop
  /-- Jumps when the operand stack has no room for `words` more words. -/
  | reserve (words : UInt32) (onOverflow : JumpTarget)
  /-- Has the runtime perform an instruction, then jumps if it stopped the method. -/
  | callRuntime (tag address ip : Word) (onHalt : JumpTarget)
  deriving DecidableEq, Repr

/-- Addresses that generated code refers to. -/
structure Addresses where
  /-- Of the first bytecode instruction of the method; each next one is one further. -/
  code : Word := 0x7A115EED1000
  /-- Of the literal pool. -/
  literals : Word := 0x7A22C0571000
  /-- Of the entry of the runtime. -/
  runtime : Word := 0x7A33B21D6E00
  deriving DecidableEq, Repr

/-- Where a method's operand stack is not empty though it must be. -/
inductive ShapeReason where
  | label | jump | conditionalJump
  deriving DecidableEq, Repr

/-- The wording of a reason. -/
def ShapeReason.text : ShapeReason → String
  | .label => "label"
  | .jump => "jump"
  | .conditionalJump => "conditional jump"

/-- Why a method is left to the interpreter. -/
inductive CompileError where
  | unsupported (what : String) (ip : Nat)
  | stackShape (ip : Nat) (reason : ShapeReason)
  | badJumpTarget (ip : Nat) (target : Word)
  | unknownCallee (cls method : Word) (ip : Nat)
  | registersExhausted
  | spillOverflow (ip : Nat)
  | constPoolFull
  | fixup (error : FixupError)
  deriving DecidableEq, Repr

def CompileError.message : CompileError → String
  | .unsupported what ip =>
    "unsupported instruction " ++ what ++ " at " ++ Numeral.signedDecimal ip
  | .stackShape ip reason =>
    "operand stack not empty at " ++ Numeral.signedDecimal ip ++ " (" ++ reason.text ++ ")"
  | .badJumpTarget ip target =>
    "jump at " ++ Numeral.signedDecimal ip ++ " targets " ++ Numeral.signedDecimal target.toInt ++
      ", which is not a label"
  | .unknownCallee cls method ip =>
    "unknown callee " ++ Numeral.signedDecimal cls.toInt ++ ":" ++
      Numeral.signedDecimal method.toInt ++ " at " ++ Numeral.signedDecimal ip
  | .registersExhausted => "out of registers"
  | .spillOverflow ip =>
    "too many live values across a runtime call at " ++ Numeral.signedDecimal ip
  | .constPoolFull => "constant pool full"
  | .fixup error => error.message

end StackMachine.Native
