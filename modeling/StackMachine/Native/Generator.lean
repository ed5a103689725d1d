import StackMachine.Code.RegisterPool
import StackMachine.Native.Operation
import StackMachine.Program

/-!
# Code generation

A method is compiled in one pass over its instructions.  The top of the operand stack is kept as
pending values (constants, registers, locals not yet read) instead of being written to memory: at
every point the operand stack in memory, followed by the pending values, is what the interpreter
would hold.  Taking more values than are pending reads the stack in memory, which is how arguments
arrive.

Writing to the operand stack is not checked word by word.  After each instruction a reservation
makes sure that all pending values fit; a reservation that nothing observable has followed is
widened instead of making a new one.
-/

namespace StackMachine.Native

/-- A value that the interpreter would hold on the operand stack. -/
inductive Pending (γ φ : Type) where
  | imm (value : Word)
  | reg (lease : Lease γ)
  /-- A local that is not read yet. -/
  | slot (index : Nat)
  | floatImm (value : Double)
  | floatReg (lease : Lease φ)
  | floatSlot (index : Nat)
  deriving DecidableEq, Repr

/-- The state of the generator. -/
structure GenState (γ φ : Type) where
  /-- The operations so far. -/
  ops : Array (Operation γ φ) := #[]
  /-- The pending values, top first. -/
  pending : List (Pending γ φ) := []
  ints : RegisterPool γ
  floats : RegisterPool φ
  /-- The instruction being compiled. -/
  ip : Nat := 0
  /-- Words above the stack in memory that are known to fit. -/
  covered : Nat := 0
  /-- The reservation that can still be widened. -/
  openReserve : Option Nat := none
  deriving Repr

/-- Generation keeps the operations it has made when it fails. -/
abbrev Gen (γ φ : Type) := EStateM CompileError (GenState γ φ)

/-- What is compiled. -/
structure Scope where
  program : Program
  method : Method
  addresses : Addresses := {}
  deriving Repr

namespace Gen

variable {γ φ : Type}

/-- Appends an operation. -/
def emit (op : Operation γ φ) : Gen γ φ Unit := modify fun s => { s with ops := s.ops.push op }

/-- Lends an integer register. -/
def acquireInt : Gen γ φ (Lease γ) :=
  modifyGet fun s =>
    let (lease, ints) := s.ints.acquire
    (lease, { s with ints })

/-- Lends a float register. -/
def acquireFloat : Gen γ φ (Lease φ) :=
  modifyGet fun s =>
    let (lease, floats) := s.floats.acquire
    (lease, { s with floats })

def pushPending (value : Pending γ φ) : Gen γ φ Unit :=
  modify fun s => { s with pending := value :: s.pending }

/-- Takes the top pending value. -/
def takePending : Gen γ φ (Option (Pending γ φ)) :=
  modifyGet fun s =>
    match s.pending with
    | value :: rest => (some value, { s with pending := rest })
    | [] => (none, s)

/-- Are no values pending? -/
def noPending : Gen γ φ Bool := return (← get).pending.isEmpty

/-! ### The operand stack limit -/

/-- Closes the open reservation: the stack in memory moves, or something happens that a later
overflow must not precede. -/
def closeReserve : Gen γ φ Unit := modify fun s => { s with openReserve := none }

def widen (ops : Array (Operation γ φ)) (place : Nat) (words : UInt32) : Array (Operation γ φ) :=
  ops.modify place fun
    | .reserve _ onOverflow => .reserve words onOverflow
    | op => op

/-- Makes sure that all pending values fit the stack in memory. -/
def reserveDepth : Gen γ φ Unit := modify fun s =>
  let depth := s.pending.length
  if depth ≤ s.covered then s
  else
    let words := UInt32.ofNat (min depth 0xFFFFFFFF)
    match s.openReserve with
    | some place => { s with ops := widen s.ops place words, covered := depth }
    | none =>
      { s with
        ops := s.ops.push (.reserve words (.fault .stackOverflow))
        openReserve := some s.ops.size
        covered := depth }

/-- A word left the stack in memory. -/
def poppedMemory : Gen γ φ Unit :=
  modify fun s => { s with covered := s.covered + 1, openReserve := none }

/-- Takes a word from the stack in memory. -/
def popMemory : Gen γ φ (Pending γ φ) := do
  let dst ← acquireInt
  emit (.pop dst.reg)
  poppedMemory
  return .reg dst

/-- Takes a double from the stack in memory. -/
def popMemoryFloat : Gen γ φ (Pending γ φ) := do
  let dst ← acquireFloat
  emit (.popFloat dst.reg)
  poppedMemory
  return .floatReg dst

/-- Emits a check that jumps to a fault. -/
def check (op : Operation γ φ) : Gen γ φ Unit := do
  closeReserve
  emit op

/-- Emits a jump. -/
def jumpTo (op : Operation γ φ) : Gen γ φ Unit := do
  emit op
  closeReserve

/-- Fails because values are pending. -/
def badShape {α : Type} (reason : ShapeReason) : Gen γ φ α := do
  throw (.stackShape (← get).ip reason)

/-! ### Pending values -/

/-- Takes the top value. -/
def pop : Gen γ φ (Pending γ φ) := do
  match ← takePending with
  | some value => return value
  | none => popMemory

/-- Takes the top value where a double is wanted. -/
def popFloat : Gen γ φ (Pending γ φ) := do
  match ← takePending with
  | some value => return value
  | none => popMemoryFloat

/-- The operand of a value; values in float registers are moved before. -/
def srcOf : Pending γ φ → Src γ
  | .imm value => .imm value
  | .reg lease => .reg lease.reg
  | .slot index | .floatSlot index => .slot (localSlot index)
  | .floatImm value => .imm value.toWord
  | .floatReg _ => .imm 0

variable [DecidableEq γ] [DecidableEq φ]

/-- Takes an integer register back. -/
def releaseInt (lease : Lease γ) : Gen γ φ Unit :=
  modify fun s => { s with ints := s.ints.release lease }

/-- Takes a float register back. -/
def releaseFloat (lease : Lease φ) : Gen γ φ Unit :=
  modify fun s => { s with floats := s.floats.release lease }

/-- Drops a value. -/
def discard : Pending γ φ → Gen γ φ Unit
  | .reg lease => releaseInt lease
  | .floatReg lease => releaseFloat lease
  | _ => pure ()

/-- Takes the top value as an integer: a constant, a register or a local. -/
def popInt : Gen γ φ (Pending γ φ) := do
  match ← pop with
  | .floatImm value => return .imm value.toWord
  | .floatSlot index => return .slot index
  | .floatReg src =>
    let dst ← acquireInt
    emit (.bitsToInt dst.reg src.reg)
    releaseFloat src
    return .reg dst
  | other => return other

def toIntReg (value : Pending γ φ) : Gen γ φ (Lease γ) := do
  match value with
  | .reg lease => return lease
  | .imm value =>
    let dst ← acquireInt
    emit (.loadImm dst.reg value)
    return dst
  | .floatImm value =>
    let dst ← acquireInt
    emit (.loadImm dst.reg value.toWord)
    return dst
  | .slot index | .floatSlot index =>
    let dst ← acquireInt
    emit (.loadSlot dst.reg (localSlot index))
    return dst
  | .floatReg src =>
    let dst ← acquireInt
    emit (.bitsToInt dst.reg src.reg)
    releaseFloat src
    return dst

def toFloatReg (value : Pending γ φ) : Gen γ φ (Lease φ) := do
  match value with
  | .floatReg lease => return lease
  | .floatImm value =>
    let dst ← acquireFloat
    emit (.loadFloatImm dst.reg value)
    return dst
  | .imm value =>
    let dst ← acquireFloat
    emit (.loadFloatImm dst.reg (Double.ofWord value))
    return dst
  | .slot index | .floatSlot index =>
    let dst ← acquireFloat
    emit (.loadFloatSlot dst.reg (localSlot index))
    return dst
  | .reg src =>
    let dst ← acquireFloat
    emit (.bitsToFloat dst.reg src.reg)
    releaseInt src
    return dst

/-- Takes the top value into an integer register. -/
def popIntReg : Gen γ φ (Lease γ) := do toIntReg (← popInt)

/-- Writes values to the stack in memory in turn. -/
def flushEach : List (Pending γ φ) → Gen γ φ Unit
  | [] => pure ()
  | .floatReg lease :: rest => do
    emit (.pushFloat lease.reg)
    releaseFloat lease
    flushEach rest
  | value :: rest => do
    emit (.push (srcOf value))
    discard value
    flushEach rest

/-- Writes the top `n` pending values to the stack in memory, bottom first. -/
def flushTop (n : Nat) : Gen γ φ Unit := do
  let values ← modifyGet fun s =>
    let values := s.pending.take n
    (values,
      { s with
        pending := s.pending.drop n
        covered := s.covered - values.length
        openReserve := none })
  flushEach values.reverse

/-- Writes every pending value to the stack in memory. -/
def flushAll : Gen γ φ Unit := do flushTop (← get).pending.length

/-- Reads a local where it is pending, below first. -/
def readPending (index : Nat) : List (Pending γ φ) → Gen γ φ (List (Pending γ φ))
  | [] => pure []
  | value :: below => do
    let below ← readPending index below
    match value with
    | .slot i =>
      if i = index then
        let dst ← acquireInt
        emit (.loadSlot dst.reg (localSlot index))
        return .reg dst :: below
      else return value :: below
    | .floatSlot i =>
      if i = index then
        let dst ← acquireFloat
        emit (.loadFloatSlot dst.reg (localSlot index))
        return .floatReg dst :: below
      else return value :: below
    | _ => return value :: below

/-- Reads a local wherever it is pending, before it changes. -/
def readLocal (index : Nat) : Gen γ φ Unit := do
  let pending ← readPending index (← get).pending
  modify fun s => { s with pending }

/-- Reads a pending local so that the value survives a store. -/
def pin (value : Pending γ φ) : Gen γ φ (Pending γ φ) := do
  match value with
  | .slot _ => return .reg (← toIntReg value)
  | .floatSlot _ => return .floatReg (← toFloatReg value)
  | other => return other

/-! ### Variables -/

/-- The local an operand names. -/
def localIndex (instr : Instruction) : Gen γ φ Nat := do
  if 0 ≤ instr.operand ∧ instr.operand ≤ 0xFFFFFFFF then return instr.operand.toInt.toNat
  else throw (.unsupported instr.text (← get).ip)

/-- The byte offset of a word of memory; negative operands name the first word. -/
def fieldDisp (slot : Word) (further : Word) : Int32 := (((max slot 0) + further) * 8).toInt32

/-- Takes a handle and checks it. -/
def popHandle : Gen γ φ (Lease γ) := do
  let handle ← popIntReg
  check (.nilBranch handle.reg (.fault .nil))
  return handle

def writeLocal (index : Nat) (value : Pending γ φ) : Gen γ φ Unit :=
  match value with
  | .floatReg lease => emit (.storeFloatSlot (localSlot index) lease.reg)
  | .slot i | .floatSlot i =>
    if i = index then pure () else emit (.storeSlot (localSlot index) (srcOf value))
  | _ => emit (.storeSlot (localSlot index) (srcOf value))

def writeMemory (base : γ) (disp : Int32) (width : Width) (value : Pending γ φ) : Gen γ φ Unit :=
  match value with
  | .floatReg lease => emit (.storeFloat base disp lease.reg)
  | _ => emit (.store width base disp (srcOf value))

/-- A stored value stays pending if it is kept. -/
def keepOrDiscard (keep : Bool) (value : Pending γ φ) : Gen γ φ Unit :=
  if keep then pushPending value else discard value

/-- Loads a variable from memory. -/
def loadField (slot : Word) (kind : ValueKind) : Gen γ φ Unit := do
  let handle ← popHandle
  match kind with
  | .float =>
    let dst ← acquireFloat
    emit (.loadFloat dst.reg handle.reg (fieldDisp slot 0))
    releaseInt handle
    pushPending (.floatReg dst)
  | .int =>
    emit (.load .word handle.reg handle.reg (fieldDisp slot 0))
    pushPending (.reg handle)

def storeLocal (instr : Instruction) (keep : Bool) : Gen γ φ Unit := do
  let index ← localIndex instr
  let value ← pop
  let value ← if keep then pin value else pure value
  readLocal index
  writeLocal index value
  keepOrDiscard keep value

/-- Stores a variable to memory. -/
def storeField (slot : Word) (keep : Bool) : Gen γ φ Unit := do
  let handle ← popHandle
  let value ← pop
  let value ← if keep then pin value else pure value
  writeMemory handle.reg (fieldDisp slot 0) .word value
  releaseInt handle
  keepOrDiscard keep value

/-- Loads both words of a local function value. -/
def loadPairLocal (instr : Instruction) : Gen γ φ Unit := do
  let index ← localIndex instr
  pushPending (.slot (index + 1))
  pushPending (.slot index)

/-- Loads both words of a function value from memory. -/
def loadPairField (slot : Word) : Gen γ φ Unit := do
  let handle ← popHandle
  let second ← acquireInt
  emit (.load .word second.reg handle.reg (fieldDisp slot 1))
  emit (.load .word handle.reg handle.reg (fieldDisp slot 0))
  pushPending (.reg second)
  pushPending (.reg handle)

/-- Stores both words of a local function value. -/
def storePairLocal (instr : Instruction) : Gen γ φ Unit := do
  let index ← localIndex instr
  let first ← pin (← pop)
  let second ← pin (← pop)
  readLocal index
  readLocal (index + 1)
  writeLocal index first
  writeLocal (index + 1) second
  discard first
  discard second

/-- Stores both words of a function value to memory. -/
def storePairField (slot : Word) : Gen γ φ Unit := do
  let handle ← popHandle
  let first ← pop
  let second ← pop
  writeMemory handle.reg (fieldDisp slot 0) .word first
  writeMemory handle.reg (fieldDisp slot 1) .word second
  discard first
  discard second
  releaseInt handle

def loadArg (arg : FrameSlot) : Gen γ φ Unit := do
  let dst ← acquireInt
  emit (.loadSlot dst.reg arg.index)
  pushPending (.reg dst)

/-! ### Arrays -/

/-- Folds the further indices of an element into the first. -/
def foldIndices (index array : γ) : List Nat → Gen γ φ Unit
  | [] => pure ()
  | dim :: rest => do
    emit (.scaleByExtent index array dim)
    let next ← popInt
    emit (.int .add index (srcOf next))
    discard next
    foldIndices index array rest

/-- Takes an array and its indices, checks them, and leaves the address of the element in a
register. -/
def elementAddress (kind : ElemKind) (dims : Nat) : Gen γ φ (Lease γ) := do
  let array ← popHandle
  let index ← popIntReg
  foldIndices index.reg array.reg (List.range' 1 (dims - 1))
  emit (.boundsBranch index.reg array.reg (.fault .under) (.fault .over))
  emit (.elementAddress index.reg array.reg (UInt8.ofNat kind.shift) (Int32.ofNat (8 * (dims + 2))))
  releaseInt array
  return index

def loadElement (kind : ElemKind) (dims : Nat) : Gen γ φ Unit := do
  let address ← elementAddress kind dims
  match kind with
  | .float =>
    let dst ← acquireFloat
    emit (.loadFloat dst.reg address.reg 0)
    releaseInt address
    pushPending (.floatReg dst)
  | kind =>
    emit (.load kind.access address.reg address.reg 0)
    pushPending (.reg address)

def storeElement (kind : ElemKind) (dims : Nat) : Gen γ φ Unit := do
  let address ← elementAddress kind dims
  let value ← pop
  writeMemory address.reg 0 kind.access value
  discard value
  releaseInt address

/-- Loads the outermost extent of an array. -/
def arraySize : Gen γ φ Unit := do
  let array ← popHandle
  emit (.load .word array.reg array.reg 16)
  pushPending (.reg array)

/-! ### Arithmetic -/

/-- An integer operation; constants are folded. -/
def arith (op : IntOp) : Gen γ φ Unit := do
  let right ← popInt
  let left ← popInt
  match left, right with
  | .imm a, .imm b => pushPending (.imm (op.eval a b))
  | left, right =>
    let dst ← toIntReg left
    emit (.int op dst.reg (srcOf right))
    discard right
    pushPending (.reg dst)

/-- A division that can fail. -/
def divideChecked (remainder : Bool) (left right : Pending γ φ) : Gen γ φ Unit := do
  let dst ← toIntReg left
  check (.divide remainder dst.reg (srcOf right) (.fault .divZero))
  discard right
  pushPending (.reg dst)

/-- A division; constants are folded unless the divisor is zero. -/
def divide (remainder : Bool) : Gen γ φ Unit := do
  let right ← popInt
  let left ← popInt
  match left, right with
  | .imm a, .imm b =>
    if b = 0 then divideChecked remainder left right
    else pushPending (.imm (Word.divide remainder a b))
  | left, right => divideChecked remainder left right

/-- Inverts every bit. -/
def bitNot : Gen γ φ Unit := do
  match ← popInt with
  | .imm value => pushPending (.imm (~~~value))
  | value =>
    let dst ← toIntReg value
    emit (.not dst.reg)
    pushPending (.reg dst)

/-- A float operation that is not folded. -/
def floatArithChecked (op : FloatOp) (left right : Pending γ φ) : Gen γ φ Unit := do
  let dst ← toFloatReg left
  let src ← toFloatReg right
  if op = .div then check (.floatZeroBranch src.reg (.fault .divZero))
  emit (.float op dst.reg src.reg)
  releaseFloat src
  pushPending (.floatReg dst)

/-- A float operation; constants are folded unless the divisor is zero. -/
def floatArith (op : FloatOp) : Gen γ φ Unit := do
  let right ← popFloat
  let left ← popFloat
  match left, right with
  | .floatImm a, .floatImm b =>
    if op = .div ∧ b.isZero then floatArithChecked op left right
    else pushPending (.floatImm (Double.eval op a b))
  | left, right => floatArithChecked op left right

/-- Converts an integer. -/
def intToFloat : Gen γ φ Unit := do
  match ← popInt with
  | .imm value => pushPending (.floatImm (Double.ofInt64 value))
  | value =>
    let src ← toIntReg value
    let dst ← acquireFloat
    emit (.intToFloat dst.reg src.reg)
    releaseInt src
    pushPending (.floatReg dst)

/-- Truncates a double. -/
def floatToInt : Gen γ φ Unit := do
  match ← popFloat with
  | .floatImm value => pushPending (.imm value.truncate)
  | value =>
    let src ← toFloatReg value
    let dst ← acquireInt
    emit (.floatToInt dst.reg src.reg)
    releaseFloat src
    pushPending (.reg dst)

/-- Drops the top value. -/
def drop : Gen γ φ Unit := do
  match ← takePending with
  | some value => discard value
  | none =>
    emit .dropTop
    poppedMemory

/-- Exchanges the two top values. -/
def swap : Gen γ φ Unit := do
  let top ← pop
  let below ← pop
  pushPending top
  pushPending below

/-! ### Control flow -/

def labelTarget (scope : Scope) (target : Word) : Gen γ φ JumpTarget := do
  match Word.toIndex? target with
  | some index =>
    if scope.method.code[index]?.any fun i => i.op = .lbl then return .instruction index
    else throw (.badJumpTarget (← get).ip target)
  | none => throw (.badJumpTarget (← get).ip target)

/-- The conditional jump right after a comparison: its target, and on which truth value it jumps. -/
def fusedJump? (next : Option Instruction) : Option (Word × Bool) :=
  match next.map Instruction.action with
  | some (.jumpWhen target value) =>
    if value = 1 then some (target, true) else if value = 0 then some (target, false) else none
  | _ => none

/-- A comparison, together with the jump after it if there is one.  Answers whether there was. -/
def compare (scope : Scope) (next : Option Instruction) (relation : Comparison) :
    Gen γ φ Bool := do
  let right ← popInt
  let left ← popInt
  match left, right with
  | .imm a, .imm b =>
    pushPending (.imm (Word.ofBool (relation.evalWord a b)))
    return false
  | left, right =>
    let dst ← toIntReg left
    emit (.compare dst.reg (srcOf right))
    discard right
    match fusedJump? next with
    | some (target, expected) =>
      releaseInt dst
      unless ← noPending do badShape .conditionalJump
      let target ← labelTarget scope target
      jumpTo (.branch (if expected then relation else relation.invert) target)
      return true
    | none =>
      emit (.setCond dst.reg relation)
      pushPending (.reg dst)
      return false

/-- A comparison of doubles, together with the jump after it if there is one. -/
def floatCompare (scope : Scope) (next : Option Instruction) (relation : Comparison) :
    Gen γ φ Bool := do
  let right ← popFloat
  let left ← popFloat
  match left, right with
  | .floatImm a, .floatImm b =>
    pushPending (.imm (Word.ofBool (Double.compare relation a b)))
    return false
  | left, right =>
    let left ← toFloatReg left
    let right ← toFloatReg right
    match fusedJump? next with
    | some (target, expected) =>
      releaseFloat left
      releaseFloat right
      unless ← noPending do badShape .conditionalJump
      let target ← labelTarget scope target
      jumpTo (.floatCompareBranch relation expected left.reg right.reg target)
      return true
    | none =>
      let dst ← acquireInt
      emit (.floatCompareSet relation dst.reg left.reg right.reg)
      releaseFloat left
      releaseFloat right
      pushPending (.reg dst)
      return false

/-- Marks a label; nothing is known about the stack in memory there. -/
def label : Gen γ φ Unit := do
  unless ← noPending do badShape .label
  modify fun s => { s with covered := 0, openReserve := none }
  emit (.bind (.instruction (← get).ip))

/-- An unconditional jump. -/
def jump (scope : Scope) (target : Word) : Gen γ φ Unit := do
  unless ← noPending do badShape .jump
  let target ← labelTarget scope target
  jumpTo (.jump target)

/-- A jump on the value on top. -/
def jumpWhen (scope : Scope) (target expected : Word) : Gen γ φ Unit := do
  let value ← popInt
  unless ← noPending do badShape .conditionalJump
  let target ← labelTarget scope target
  match value with
  | .imm v => if v = expected then jumpTo (.jump target)
  | value =>
    let reg ← toIntReg value
    emit (.compare reg.reg (.imm expected))
    jumpTo (.branch .eq target)
    releaseInt reg

/-- Leaves the method. -/
def leave : Gen γ φ Unit := do
  flushAll
  emit (.jump .exit)

/-! ### Runtime calls -/

/-- What a runtime call takes from the stack and leaves there. -/
def runtimeShape (scope : Scope) (instr : Instruction) : Gen γ φ Shape := do
  match instr.op with
  | .mthdCall =>
    match scope.program.callee? instr.operand instr.operand2 with
    | some callee => return ⟨callee.params + 1, callee.returns.produced⟩
    | none => throw (.unknownCallee instr.operand instr.operand2 (← get).ip)
  | .dynMthdCall =>
    return ⟨(Word.toIndex? instr.operand).getD 0 + 2, (ReturnKind.ofCode instr.operand2).produced⟩
  | op =>
    match op.shape? instr.operand with
    | some shape => return shape
    | none => throw (.unsupported op.name (← get).ip)

/-- The integer registers that hold pending values, bottom first. -/
def pendingInts (pending : List (Pending γ φ)) : List γ :=
  pending.reverse.filterMap fun
    | .reg lease => some lease.reg
    | _ => none

/-- The float registers that hold pending values, bottom first. -/
def pendingFloats (pending : List (Pending γ φ)) : List φ :=
  pending.reverse.filterMap fun
    | .floatReg lease => some lease.reg
    | _ => none

/-- One operation for each register and its slot. -/
def emitSpills {ρ : Type} (op : Nat → ρ → Operation γ φ) : Nat → List ρ → Gen γ φ Unit
  | _, [] => pure ()
  | slot, reg :: rest => do
    emit (op slot reg)
    emitSpills op (slot + 1) rest

/-- Takes the results of a runtime call from the stack in memory, top first. -/
def takeResults : List ValueKind → Gen γ φ (List (Pending γ φ))
  | [] => pure []
  | kind :: rest => do
    let value ← match kind with
      | .float => popMemoryFloat
      | .int => popMemory
    return value :: (← takeResults rest)

/-- Has the runtime perform an instruction.  What it consumes is written to the stack in memory;
registers that hold other pending values are kept in the frame meanwhile. -/
def callRuntime (scope : Scope) (instr : Instruction) : Gen γ φ Unit := do
  let shape ← runtimeShape scope instr
  flushTop shape.consumed
  let pending := (← get).pending
  let ip := (← get).ip
  let ints := pendingInts pending
  let floats := pendingFloats pending
  if intSpillSlots < ints.length ∨ floatSpillSlots < floats.length then throw (.spillOverflow ip)
  emitSpills (fun slot reg => .storeSlot slot (.reg reg)) intSpillBase ints
  emitSpills (fun slot reg => .storeFloatSlot slot reg) floatSpillBase floats
  emit (.callRuntime (Word.ofNat instr.op.tag) (scope.addresses.code + Word.ofNat ip)
    (Word.ofNat (ip + 1)) .exit)
  modify fun s => { s with covered := s.covered + shape.consumed - shape.produced.length }
  emitSpills (fun slot reg => .loadSlot reg slot) intSpillBase ints
  emitSpills (fun slot reg => .loadFloatSlot reg slot) floatSpillBase floats
  let results ← takeResults shape.produced.reverse
  modify fun s => { s with pending := results ++ s.pending }

/-! ### Methods -/

/-- Compiles one instruction and answers whether the next one was compiled with it. -/
def instruction (scope : Scope) (instr : Instruction) (next : Option Instruction) :
    Gen γ φ Bool := do
  match instr.action with
  | .literal value => pushPending (.imm value)
  | .floatLiteral value => pushPending (.floatImm value)
  | .label => label
  | .loadLocal _ kind =>
    let index ← localIndex instr
    pushPending (match kind with
      | .float => .floatSlot index
      | .int => .slot index)
  | .loadField slot kind => loadField slot kind
  | .storeLocal _ keep => storeLocal instr keep
  | .storeField slot keep => storeField slot keep
  | .loadPairLocal _ => loadPairLocal instr
  | .loadPairField slot => loadPairField slot
  | .storePairLocal _ => storePairLocal instr
  | .storePairField slot => storePairField slot
  | .loadClassMemory => loadArg .classMemory
  | .loadInstance => loadArg .receiver
  | .loadElement kind dims => loadElement kind dims
  | .storeElement kind dims => storeElement kind dims
  | .arraySize => arraySize
  | .arith op => arith op
  | .divide remainder => divide remainder
  | .bitNot => bitNot
  | .compare relation => return ← compare scope next relation
  | .floatArith op => floatArith op
  | .floatCompare relation => return ← floatCompare scope next relation
  | .intToFloat => intToFloat
  | .floatToInt => floatToInt
  | .drop => drop
  | .swap => swap
  | .jump target => jump scope target
  | .jumpWhen target value => jumpWhen scope target value
  | .leave => leave
  | .runtime => callRuntime scope instr
  return false

/-- Compiles the instruction at a place, and reserves room for what it leaves pending. -/
def step (scope : Scope) (ip : Nat) (instr : Instruction) (next : Option Instruction) :
    Gen γ φ Bool := do
  modify fun s => { s with ip }
  if instr.action.writesMemory then closeReserve
  let fused ← instruction scope instr next
  let s ← get
  if s.ints.failed ∨ s.floats.failed then throw .registersExhausted
  reserveDepth
  return fused

/-- Compiles instructions in turn. -/
def body (scope : Scope) : Nat → List Instruction → Gen γ φ Unit
  | _, [] => pure ()
  | ip, [instr] => do
    let _ ← step scope ip instr none
    return ()
  | ip, instr :: next :: rest => do
    if ← step scope ip instr next then body scope (ip + 2) rest
    else body scope (ip + 1) (next :: rest)

def faultStub (kind : FaultKind) : Gen γ φ Unit := do
  emit (.bind (.fault kind))
  emit (.status kind.status)

/-- Compiles a method: its body, the stubs that return a status, and the shared end. -/
def method (scope : Scope) : Gen γ φ Unit := do
  emit (.prologue scope.method.localWords)
  body scope 0 scope.method.code.toList
  flushAll
  emit (.bind .exit)
  emit (.status 0)
  FaultKind.all.forM faultStub
  emit (.bind .teardown)
  emit .teardown

end Gen

/-- The operations of a method, as far as generation got, and why it stopped if it failed. -/
def generate {γ φ : Type} [DecidableEq γ] [DecidableEq φ] (ints : RegisterPool γ)
    (floats : RegisterPool φ) (scope : Scope) : List (Operation γ φ) × Option CompileError :=
  match Gen.method scope { ints, floats } with
  | .ok _ s => (s.ops.toList, none)
  | .error e s => (s.ops.toList, some e)

end StackMachine.Native
