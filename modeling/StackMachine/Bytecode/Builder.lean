import StackMachine.Program

/-!
# Writing bytecode

Short forms for the instructions of a program.
-/

namespace StackMachine.Build

/-- An instruction without operands. -/
def op (code : Opcode) : Instruction := { op := code }

def with1 (code : Opcode) (operand : Word) : Instruction := { op := code, operand }

def var (code : Opcode) (context : MemoryContext) (slot : Word) : Instruction :=
  { op := code, operand := slot, operand2 := context.encode }

def int (value : Word) : Instruction := with1 .loadIntLit value

def char (c : Char) : Instruction := with1 .loadCharLit (Word.ofNat c.toNat)

def float (value : Double) : Instruction := { op := .loadFloatLit, float := value }

def loadLocal (slot : Word) : Instruction := var .loadIntVar .frame slot

def storeLocal (slot : Word) : Instruction := var .storIntVar .frame slot

/-- Stores a local integer and keeps it on the stack. -/
def copyLocal (slot : Word) : Instruction := var .copyIntVar .frame slot

def loadFloatLocal (slot : Word) : Instruction := var .loadFloatVar .frame slot

def storeFloatLocal (slot : Word) : Instruction := var .storFloatVar .frame slot

def loadFuncLocal (slot : Word) : Instruction := var .loadFuncVar .frame slot

def storeFuncLocal (slot : Word) : Instruction := var .storFuncVar .frame slot

def loadField (slot : Word) : Instruction := var .loadIntVar .field slot

def storeField (slot : Word) : Instruction := var .storIntVar .field slot

def loadStatic (slot : Word) : Instruction := var .loadIntVar .static slot

def storeStatic (slot : Word) : Instruction := var .storIntVar .static slot

def jump (target : Word) : Instruction := { op := .jmp, operand := target, operand2 := -1 }

/-- Pops a word and jumps when it equals `value`. -/
def jumpIf (target value : Word) :
    Instruction := { op := .jmp, operand := target, operand2 := value }

/-- A label with a number of its own. -/
def label (id : Word) : Instruction := with1 .lbl id

/-- Calls a method; `native` asks for it to run compiled. -/
def callMethod (cls method : Word) (native : Bool) : Instruction :=
  { op := .mthdCall, operand := cls, operand2 := method, operand3 := Word.ofBool native }

def call (cls method : Word) : Instruction := callMethod cls method false

def nativeCall (cls method : Word) : Instruction := callMethod cls method true

def dynCall (argWords : Word) (returns : ReturnKind) : Instruction :=
  { op := .dynMthdCall, operand := argWords, operand2 := returns.code }

def newObject (cls : Word) : Instruction := with1 .newObjInst cls

/-- Asks for a service; the service number counts as one of the `words`. -/
def trap (service : TrapCode) (words : Word) : List Instruction :=
  [int service.code, with1 .trap words]

def leave : Instruction := op .rtrn

end StackMachine.Build
