import StackMachine.Engine.State

/-!
# Execution of native operations

A processor has registers, the slots of the frame it runs on and the operands of the last
comparison.  It performs the operations of a compiled method on them, on the operand stack and on
memory.  What the runtime does when it is called is a parameter.  A method goes on after a runtime
call only if the context has not been told to halt, and no register has kept its value then.
-/

namespace StackMachine.Native

/-! ### Registers -/

/-- The registers that have been written, with their values. -/
abbrev Bank (ρ α : Type) := List (ρ × α)

namespace Bank

variable {ρ α : Type} [DecidableEq ρ]

/-- The value of a register, if it has been written. -/
def value? (bank : Bank ρ α) (reg : ρ) : Option α :=
  match bank with
  | [] => none
  | (r, value) :: rest => if r = reg then some value else value? rest reg

/-- Writes a register. -/
def set (bank : Bank ρ α) (reg : ρ) (value : α) : Bank ρ α :=
  match bank with
  | [] => [(reg, value)]
  | (r, old) :: rest => if r = reg then (r, value) :: rest else (r, old) :: set rest reg value

end Bank

/-- The state of a processor within one call. -/
structure Processor (γ φ : Type) where
  ints : Bank γ Word := []
  floats : Bank φ Double := []
  /-- The frame. -/
  slots : Array Word := #[]
  /-- The operands of the last comparison. -/
  compared : Word × Word := (0, 0)
  /-- The value to be returned. -/
  status : Word := 0
  deriving Repr

/-- What a compiled method is entered with. -/
structure Entry where
  method : MethodId
  classMemory : Word
  receiver : Word
  deriving DecidableEq, Repr

/-- The entry argument a slot holds.  Of the others, which describe the context to machine code,
no operation reads the value. -/
def Entry.arg (e : Entry) : FrameSlot → Word
  | .classId => Word.ofNat e.method.cls
  | .methodId => Word.ofNat e.method.index
  | .classMemory => e.classMemory
  | .receiver => e.receiver
  | _ => 0

/-- Where control goes after an operation. -/
inductive Flow where
  | next
  | goto (target : JumpTarget)
  /-- The method returns. -/
  | done (status : Word)
  deriving DecidableEq, Repr

/-- The runtime as compiled code calls it: the number of the operation, the address of the
instruction and the place of the next one. -/
abbrev Callback := Word → Word → Word → Exec Unit

namespace Processor

open Exec

variable {γ φ : Type} [DecidableEq γ] [DecidableEq φ]

def int (p : Processor γ φ) (reg : γ) : Word := (p.ints.value? reg).getD 0

def setInt (p : Processor γ φ) (reg : γ) (value : Word) : Processor γ φ :=
  { p with ints := p.ints.set reg value }

def float (p : Processor γ φ) (reg : φ) : Double := (p.floats.value? reg).getD Double.zero

def setFloat (p : Processor γ φ) (reg : φ) (value : Double) : Processor γ φ :=
  { p with floats := p.floats.set reg value }

/-- The value of a slot. -/
def slot (p : Processor γ φ) (index : Nat) : Word := p.slots.getD index 0

/-- Writes a slot. -/
def setSlot (p : Processor γ φ) (index : Nat) (value : Word) : Processor γ φ :=
  { p with slots := p.slots.setIfInBounds index value }

/-- The value of an operand. -/
def src (p : Processor γ φ) : Src γ → Word
  | .reg reg => p.int reg
  | .imm value => value
  | .slot index => p.slot index

/-- A frame with its entry arguments and cleared locals. -/
def openFrame (entry : Entry) (locals : Nat) : Array Word :=
  (FrameSlot.all.map entry.arg).toArray ++
    Array.replicate (frameSlots locals - FrameSlot.all.length) 0

/-- The pointer that a base register and a displacement name. -/
def pointer (p : Processor γ φ) (base : γ) (disp : Int32) : Word := p.int base + disp.toInt64

/-- Goes to a target if a condition holds. -/
def Flow.when (condition : Bool) (target : JumpTarget) : Flow :=
  if condition then .goto target else .next

/-- Writes a word above the operand stack without a check. -/
def pushWord (value : Word) : Exec Unit := modifyStack fun s => s.pushUnchecked value

/-- Moves the top of the operand stack down without a check, and reads the word there. -/
def popWord : Exec Word := do
  modifyStack OperandStack.dropUnchecked
  asksContext fun c => c.stack.atCursor

def perform (call : Callback) (entry : Entry) (p : Processor γ φ) (op : Operation γ φ) :
    Exec (Processor γ φ × Flow) := do
  match op with
  | .prologue locals =>
    modifyFrame fun f => { f with nativeLocals := some locals }
    return ({ p with slots := openFrame entry locals }, .next)
  | .status value => return ({ p with status := value }, .goto .teardown)
  | .teardown => return (p, .done p.status)
  | .bind _ => return (p, .next)
  | .jump target => return (p, .goto target)
  | .loadImm dst value => return (p.setInt dst value, .next)
  | .loadFloatImm dst value => return (p.setFloat dst value, .next)
  | .move dst src => return (p.setInt dst (p.int src), .next)
  | .moveFloat dst src => return (p.setFloat dst (p.float src), .next)
  | .int op dst src => return (p.setInt dst (op.eval (p.int dst) (p.src src)), .next)
  | .not dst => return (p.setInt dst (~~~(p.int dst)), .next)
  | .divide remainder dst src onZero =>
    if p.src src = 0 then return (p, .goto onZero)
    else return (p.setInt dst (Word.divide remainder (p.int dst) (p.src src)), .next)
  | .compare left right => return ({ p with compared := (p.int left, p.src right) }, .next)
  | .setCond dst relation =>
    return (p.setInt dst (Word.ofBool (relation.evalWord p.compared.1 p.compared.2)), .next)
  | .branch relation target =>
    return (p, Flow.when (relation.evalWord p.compared.1 p.compared.2) target)
  | .floatCompareSet relation dst left right =>
    let holds := Double.compare relation (p.float left) (p.float right)
    return (p.setInt dst (Word.ofBool holds), .next)
  | .floatCompareBranch relation expected left right target =>
    let holds := Double.compare relation (p.float left) (p.float right)
    return (p, Flow.when (holds == expected) target)
  | .float op dst src => return (p.setFloat dst (Double.eval op (p.float dst) (p.float src)), .next)
  | .floatZeroBranch src target => return (p, Flow.when (p.float src).isZero target)
  | .intToFloat dst src => return (p.setFloat dst (Double.ofInt64 (p.int src)), .next)
  | .floatToInt dst src => return (p.setInt dst (p.float src).truncate, .next)
  | .bitsToFloat dst src => return (p.setFloat dst (Double.ofWord (p.int src)), .next)
  | .bitsToInt dst src => return (p.setInt dst (p.float src).toWord, .next)
  | .load width dst base disp =>
    let value ← asksHeap fun h => h.read (p.pointer base disp) width
    return (p.setInt dst value, .next)
  | .store width base disp src =>
    modifyHeap fun h => h.write (p.pointer base disp) width (p.src src)
    return (p, .next)
  | .loadFloat dst base disp =>
    let value ← asksHeap fun h => h.read (p.pointer base disp) .word
    return (p.setFloat dst (Double.ofWord value), .next)
  | .storeFloat base disp src =>
    modifyHeap fun h => h.write (p.pointer base disp) .word (p.float src).toWord
    return (p, .next)
  | .loadSlot dst slot => return (p.setInt dst (p.slot slot), .next)
  | .storeSlot slot src => return (p.setSlot slot (p.src src), .next)
  | .loadFloatSlot dst slot => return (p.setFloat dst (Double.ofWord (p.slot slot)), .next)
  | .storeFloatSlot slot src => return (p.setSlot slot (p.float src).toWord, .next)
  | .nilBranch reg target => return (p, Flow.when (p.int reg == 0) target)
  | .boundsBranch index array under above =>
    if p.int index < 0 then return (p, .goto under)
    let length ← asksHeap fun h => h.read (p.int array) .word
    return (p, Flow.when (decide (length ≤ p.int index)) above)
  | .scaleByExtent index array dim =>
    let extent ← asksHeap fun h => h.read (p.int array + Word.ofNat (8 * (dim + 2))) .word
    return (p.setInt index (p.int index * extent), .next)
  | .elementAddress index array shift disp =>
    let scaled := p.int index <<< Int64.ofNat shift.toNat
    return (p.setInt index (p.int array + scaled + disp.toInt64), .next)
  | .push src =>
    pushWord (p.src src)
    return (p, .next)
  | .pushFloat src =>
    pushWord (p.float src).toWord
    return (p, .next)
  | .pop dst =>
    let value ← popWord
    return (p.setInt dst value, .next)
  | .popFloat dst =>
    let value ← popWord
    return (p.setFloat dst (Double.ofWord value), .next)
  | .dropTop =>
    modifyStack OperandStack.dropUnchecked
    return (p, .next)
  | .reserve words onOverflow =>
    let full ← asksContext fun c =>
      decide (Word.ofNat c.stack.capacity < c.stack.cursor + Word.ofNat words.toNat)
    return (p, Flow.when full onOverflow)
  | .callRuntime tag address ip onHalt =>
    call tag address ip
    let halted ← asksContext fun c => c.halt != 0
    -- the runtime uses the registers for itself; only the frame is left
    return ({ slots := p.slots }, Flow.when halted onHalt)

/-- Performs operations from a place on, for at most `fuel` operations, and answers the status that
is returned. -/
def run (call : Callback) (entry : Entry) (ops : Array (Operation γ φ))
    (places : List (JumpTarget × Nat)) : Nat → Nat → Processor γ φ → Exec Word
  | 0, _, _ => throw .stuck
  | fuel + 1, place, p => do
    match ops[place]? with
    | none => return p.status
    | some op =>
      let (p, flow) ← p.perform call entry op
      match flow with
      | .next => run call entry ops places fuel (place + 1) p
      | .goto target =>
        match places.lookup target with
        | some place => run call entry ops places fuel place p
        | none => return p.status
      | .done status => return status

/-- A run begins with its first operation. -/
theorem run_succ {call : Callback} {entry : Entry} {ops : Array (Operation γ φ)}
    {places : List (JumpTarget × Nat)} {fuel place : Nat} {op : Operation γ φ} {p : Processor γ φ}
    {s : State} (fetch : ops[place]? = some op) : run call entry ops places (fuel + 1) place p s =
    match p.perform call entry op s with
    | .ok (p', .next) t => run call entry ops places fuel (place + 1) p' t
    | .ok (p', .goto target) t =>
      match places.lookup target with
      | some next => run call entry ops places fuel next p' t
      | none => .ok p'.status t
    | .ok (_, .done status) t => .ok status t
    | .error e t => .error e t := by
  rw [run, fetch]
  show EStateM.bind _ _ _ = _
  unfold EStateM.bind
  cases p.perform call entry op s with
  | error e t => rfl
  | ok r t =>
    obtain ⟨p', flow⟩ := r
    cases flow with
    | next => rfl
    | done status => rfl
    | goto target =>
      dsimp only
      cases places.lookup target <;> rfl

end Processor

def places {γ φ : Type} (ops : List (Operation γ φ)) : List (JumpTarget × Nat) :=
  ops.zipIdx.filterMap fun (op, place) =>
    match op with
    | .bind target => some (target, place)
    | _ => none

end StackMachine.Native
