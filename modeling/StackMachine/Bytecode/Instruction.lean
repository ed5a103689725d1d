import StackMachine.Bytecode.Opcode
import StackMachine.Double.Text
import StackMachine.Numeral
import StackMachine.Heap.Element

/-!
# Instructions

An instruction is an opcode with three integer operands and one double.  `Instruction.action` reads
what an instruction asks for, so that both engines agree on it by construction: one action per way
of computing, with the operands that matter.
-/

namespace StackMachine

/-- One bytecode operation with its operands. -/
structure Instruction where
  op : Opcode
  operand : Word := 0
  operand2 : Word := 0
  operand3 : Word := 0
  float : Double := Double.zero
  deriving DecidableEq, Repr

/-- Where a variable lives. -/
inductive MemoryContext where
  /-- The memory of a class. -/
  | static
  /-- The memory of an instance. -/
  | field
  /-- The frame of the running method. -/
  | frame
  deriving DecidableEq, Repr

namespace MemoryContext

/-- The operand that names a context. -/
def encode : MemoryContext → Word
  | .static => -3500
  | .field => -3499
  | .frame => -3498

/-- The context an operand names; every other operand means the frame. -/
def decode (operand : Word) : MemoryContext :=
  if operand = -3500 then .static
  else if operand = -3499 then .field
  else .frame

@[simp]
theorem decode_encode (c : MemoryContext) : decode c.encode = c := by cases c <;> rfl

end MemoryContext

/-- The services a trap can ask for. -/
inductive TrapCode where
  | stdOutInt | stdOutFloat | stdOutChar | stdOutString | stdOutNewline | sysTimeMillis
  deriving DecidableEq, Repr

namespace TrapCode

/-- The number of a service. -/
def code : TrapCode → Word
  | .stdOutInt => 0
  | .stdOutFloat => 1
  | .stdOutChar => 2
  | .stdOutString => 3
  | .stdOutNewline => 4
  | .sysTimeMillis => 5

/-- The service of a number. -/
def ofCode? (code : Word) : Option TrapCode :=
  if code = 0 then some .stdOutInt
  else if code = 1 then some .stdOutFloat
  else if code = 2 then some .stdOutChar
  else if code = 3 then some .stdOutString
  else if code = 4 then some .stdOutNewline
  else if code = 5 then some .sysTimeMillis
  else none

@[simp]
theorem ofCode?_code (t : TrapCode) : ofCode? t.code = some t := by cases t <;> rfl

end TrapCode

/-- The kinds of value a runtime call leaves. -/
inductive ValueKind where
  | int
  | float
  deriving DecidableEq, Repr

/-- How many operand stack words a runtime call takes, and what it leaves, bottom first. -/
structure Shape where
  consumed : Nat
  produced : List ValueKind
  deriving DecidableEq, Repr

/-- The shape of an operation that always goes through the runtime.  Method calls have none here:
theirs comes from the callee. -/
def Opcode.shape? (op : Opcode) (operand : Word) : Option Shape :=
  let counted := (Word.toIndex? operand).getD 0
  match op with
  | .loadArySize => some ⟨1, [.int]⟩
  | .randFloat => some ⟨0, [.float]⟩
  | .florFloat | .ceilFloat | .sinFloat | .cosFloat | .tanFloat | .asinFloat | .acosFloat
  | .atanFloat | .logFloat | .sqrtFloat => some ⟨1, [.float]⟩
  | .atan2Float | .modFloat | .powFloat => some ⟨2, [.float]⟩
  | .newByteAry | .newCharAry | .newIntAry | .newFloatAry => some ⟨counted, [.int]⟩
  | .newObjInst | .newFuncInst => some ⟨0, [.int]⟩
  | .cpyByteAry | .cpyCharAry | .cpyIntAry | .cpyFloatAry => some ⟨5, [.int]⟩
  | .zeroByteAry | .zeroCharAry | .zeroIntAry | .zeroFloatAry => some ⟨1, []⟩
  | .objInstCast | .objTypeOf => some ⟨1, [.int]⟩
  | .i2s => some ⟨3, []⟩
  | .f2s => some ⟨2, []⟩
  | .s2i => some ⟨2, [.int]⟩
  | .s2f => some ⟨1, [.float]⟩
  | .threadJoin | .threadMutex | .criticalStart | .criticalEnd | .threadSleep => some ⟨1, []⟩
  | .asyncMthdCall => some ⟨2, []⟩
  | .trap => some ⟨counted, []⟩
  | .trapRtrn => some ⟨counted, [.int]⟩
  | _ => none

/-- What an instruction asks for. -/
inductive Action where
  | literal (value : Word)
  | floatLiteral (value : Double)
  | label
  | loadLocal (slot : Word) (kind : ValueKind)
  | loadField (slot : Word) (kind : ValueKind)
  /-- Stores the top of the stack, which stays there when `keep` is set. -/
  | storeLocal (slot : Word) (keep : Bool)
  | storeField (slot : Word) (keep : Bool)
  /-- Function values take two words; the word at `slot` ends on top. -/
  | loadPairLocal (slot : Word)
  | loadPairField (slot : Word)
  | storePairLocal (slot : Word)
  | storePairField (slot : Word)
  | loadClassMemory
  | loadInstance
  | loadElement (kind : ElemKind) (dims : Nat)
  | storeElement (kind : ElemKind) (dims : Nat)
  | arraySize
  | arith (op : IntOp)
  | divide (remainder : Bool)
  | bitNot
  | compare (relation : Comparison)
  | floatArith (op : FloatOp)
  | floatCompare (relation : Comparison)
  | intToFloat
  | floatToInt
  | drop
  | swap
  | jump (target : Word)
  /-- Pops a word and jumps when it equals `value`. -/
  | jumpWhen (target value : Word)
  | leave
  /-- Everything else is left to the runtime. -/
  | runtime
  deriving Repr

/-- Equality with an action that has no operands, which takes no equality of operands to decide. -/
instance (a : Action) : Decidable (a = .arraySize) := by
  cases a <;> first | exact isTrue rfl | exact isFalse nofun

instance (a : Action) : Decidable (a = .runtime) := by
  cases a <;> first | exact isTrue rfl | exact isFalse nofun

/-- Does an action change memory, so that a later fault must not come before it? -/
def Action.writesMemory : Action → Bool
  | .storeLocal _ _ | .storeField _ _ | .storePairLocal _ | .storePairField _
  | .storeElement _ _ => true
  | _ => false

namespace Instruction

def context (i : Instruction) : MemoryContext :=
  match i.op with
  | .loadLoclIntVar | .storLoclIntVar | .copyLoclIntVar => .frame
  | .loadClsInstIntVar | .storClsInstIntVar | .copyClsInstIntVar => .field
  | _ => MemoryContext.decode i.operand2

/-- The written form of an instruction. -/
def text (i : Instruction) : String :=
  match i.op with
  | .loadFloatLit => i.op.name ++ " " ++ i.float.shortest
  | _ =>
    " ".intercalate
      [i.op.name, Numeral.signedDecimal i.operand.toInt, Numeral.signedDecimal i.operand2.toInt,
        Numeral.signedDecimal i.operand3.toInt]

/-- The number of indices an element instruction takes: at least one. -/
def dims (i : Instruction) : Nat := if i.operand < 1 then 1 else i.operand.toInt.toNat

/-- What an instruction asks for. -/
def action (i : Instruction) : Action :=
  let isLocal := i.context = .frame
  let load kind := if isLocal then Action.loadLocal i.operand kind else .loadField i.operand kind
  let store keep := if isLocal then Action.storeLocal i.operand keep else .storeField i.operand keep
  match i.op with
  | .loadIntLit | .loadCharLit => .literal i.operand
  | .loadFloatLit => .floatLiteral i.float
  | .lbl => .label
  | .loadIntVar | .loadLoclIntVar | .loadClsInstIntVar => load .int
  | .loadFloatVar => load .float
  | .storIntVar | .storFloatVar | .storLoclIntVar | .storClsInstIntVar => store false
  | .copyIntVar | .copyFloatVar | .copyLoclIntVar | .copyClsInstIntVar => store true
  | .loadFuncVar => if isLocal then .loadPairLocal i.operand else .loadPairField i.operand
  | .storFuncVar => if isLocal then .storePairLocal i.operand else .storePairField i.operand
  | .loadClsMem => .loadClassMemory
  | .loadInstMem => .loadInstance
  | .loadByteAryElm => .loadElement .byte i.dims
  | .loadCharAryElm => .loadElement .char i.dims
  | .loadIntAryElm => .loadElement .int i.dims
  | .loadFloatAryElm => .loadElement .float i.dims
  | .storByteAryElm => .storeElement .byte i.dims
  | .storCharAryElm => .storeElement .char i.dims
  | .storIntAryElm => .storeElement .int i.dims
  | .storFloatAryElm => .storeElement .float i.dims
  | .loadArySize => .arraySize
  | .addInt => .arith .add
  | .subInt => .arith .sub
  | .mulInt => .arith .mul
  | .andInt | .bitAndInt => .arith .and
  | .orInt | .bitOrInt => .arith .or
  | .bitXorInt => .arith .xor
  | .shlInt => .arith .shl
  | .shrInt => .arith .shr
  | .divInt => .divide false
  | .modInt => .divide true
  | .bitNotInt => .bitNot
  | .eqlInt => .compare .eq
  | .neqlInt => .compare .ne
  | .lesInt => .compare .lt
  | .gtrInt => .compare .gt
  | .lesEqlInt => .compare .le
  | .gtrEqlInt => .compare .ge
  | .addFloat => .floatArith .add
  | .subFloat => .floatArith .sub
  | .mulFloat => .floatArith .mul
  | .divFloat => .floatArith .div
  | .eqlFloat => .floatCompare .eq
  | .neqlFloat => .floatCompare .ne
  | .lesFloat => .floatCompare .lt
  | .gtrFloat => .floatCompare .gt
  | .lesEqlFloat => .floatCompare .le
  | .gtrEqlFloat => .floatCompare .ge
  | .i2f => .intToFloat
  | .f2i => .floatToInt
  | .popInt | .popFloat => .drop
  | .swapInt => .swap
  | .jmp => if i.operand2 = -1 then .jump i.operand else .jumpWhen i.operand i.operand2
  | .rtrn => .leave
  | _ => .runtime

end Instruction

end StackMachine
