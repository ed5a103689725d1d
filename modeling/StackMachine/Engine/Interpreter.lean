import StackMachine.Engine.State

/-!
# Interpretation

A method is interpreted instruction by instruction in the innermost frame.  What only the runtime
can do is a parameter, so the same loop serves every meaning of runtime calls.
-/

namespace StackMachine.Interpreter

open Exec

/-- Where control goes after an instruction. -/
inductive Flow where
  | next
  | goto (ip : Nat)
  | leave
  deriving DecidableEq, Repr

/-! ### Variables and elements -/

/-- Takes a handle and answers the pointer to one of its words; negative slots mean the first. -/
def popField (slot : Word) : Exec Word := do
  let handle ← popHandle
  return handle + 8 * max slot 0

def load (pointer : Word) : Exec Unit := do push (← asksHeap fun h => h.read pointer .word)

def store (pointer value : Word) : Exec Unit := modifyHeap fun h => h.write pointer .word value

/-- Takes the further indices of an element and folds them into the first. -/
def foldIndices (array : Word) : List Nat → Word → Exec Word
  | [], index => return index
  | dim :: rest, index => do
    let extent ← asksHeap fun h => h.arrayExtent array dim
    foldIndices array rest (index * extent + (← pop))

/-- Takes an array and its indices, checks them, and answers the pointer to the element. -/
def popElement (kind : ElemKind) (dims : Nat) : Exec Word := do
  let array ← popHandle
  let index ← foldIndices array (List.range' 1 (dims - 1)) (← pop)
  ofExcept (← asksHeap fun h => h.checkIndex array index)
  asksHeap fun h => h.elementPointer array kind index.toInt.toNat

/-! ### Instructions -/

/-- Takes two words, the right one on top. -/
def popTwo : Exec (Word × Word) := do
  let right ← pop
  let left ← pop
  return (left, right)

/-- Takes two doubles, the right one on top. -/
def popTwoFloats : Exec (Double × Double) := do
  let right ← popFloat
  let left ← popFloat
  return (left, right)

/-- The word that is stored: taken from the stack unless it is kept. -/
def stored (keep : Bool) : Exec Word := if keep then peek else pop

/-- Goes to an instruction of a method. -/
def jumpTo (length : Nat) (target : Word) : Exec Flow := do
  match Word.toIndex? target with
  | some ip => if ip < length then return .goto ip else fail (.invalidJump target)
  | none => fail (.invalidJump target)

/-- Performs an action that control passes through. -/
def perform (method : Method) : Action → Exec Unit
  | .literal value => push value
  | .floatLiteral value => pushFloat value
  | .loadLocal slot _ => do push (← readLocal slot)
  | .loadField slot _ => do load (← popField slot)
  | .storeLocal slot keep => do writeLocal slot (← stored keep)
  | .storeField slot keep => do
    let pointer ← popField slot
    store pointer (← stored keep)
  | .loadPairLocal slot => do
    push (← readLocal (slot + 1))
    push (← readLocal slot)
  | .loadPairField slot => do
    let pointer ← popField slot
    load (pointer + 8)
    load pointer
  | .storePairLocal slot => do
    let first ← pop
    let second ← pop
    writeLocal slot first
    writeLocal (slot + 1) second
  | .storePairField slot => do
    let pointer ← popField slot
    let first ← pop
    let second ← pop
    store pointer first
    store (pointer + 8) second
  | .loadClassMemory => do push (← asksMachine fun m => m.classMemory method.id.cls)
  | .loadInstance => do push (← asksFrame Frame.receiver)
  | .loadElement kind dims => do
    let pointer ← popElement kind dims
    push (← asksHeap fun h => h.read pointer kind.access)
  | .storeElement kind dims => do
    let pointer ← popElement kind dims
    let value ← pop
    modifyHeap fun h => h.write pointer kind.access value
  | .arith op => do
    let (left, right) ← popTwo
    push (op.eval left right)
  | .divide remainder => do
    let (left, right) ← popTwo
    if right = 0 then fail .divideByZero
    push (Word.divide remainder left right)
  | .bitNot => do push (~~~(← pop))
  | .compare relation => do
    let (left, right) ← popTwo
    push (Word.ofBool (relation.evalWord left right))
  | .floatArith op => do
    let (left, right) ← popTwoFloats
    if op = .div ∧ right.isZero then fail .divideByZero
    pushFloat (Double.eval op left right)
  | .floatCompare relation => do
    let (left, right) ← popTwoFloats
    push (Word.ofBool (Double.compare relation left right))
  | .intToFloat => do pushFloat (Double.ofInt64 (← pop))
  | .floatToInt => do push (← popFloat).truncate
  | .drop => do
    let _ ← pop
    return ()
  | .swap => do
    let top ← pop
    let below ← pop
    push top
    push below
  | _ => pure ()

/-- Performs an instruction of a method with a meaning of runtime calls; `ip` is the place of the
next instruction. -/
def step (call : Instruction → Exec Unit) (method : Method) (ip : Nat) (instr : Instruction) :
    Exec Flow := do
  match instr.action with
  | .jump target => jumpTo method.code.size target
  | .jumpWhen target value =>
    if (← pop) = value then jumpTo method.code.size target else return .next
  | .leave => return .leave
  | .arraySize | .runtime =>
    modifyFrame fun f => { f with ip }
    call instr
    return .next
  | action =>
    perform method action
    return .next

/-- Interprets a method from an instruction on, for at most `fuel` instructions. -/
def run (call : Instruction → Exec Unit) (method : Method) : Nat → Nat → Exec Unit
  | 0, _ => throw .stuck
  | fuel + 1, ip => do
    match method.code[ip]? with
    | none => return ()
    | some instr =>
      match ← step call method (ip + 1) instr with
      | .next => run call method fuel (ip + 1)
      | .goto target => run call method fuel target
      | .leave => return ()

end StackMachine.Interpreter
