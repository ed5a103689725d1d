import StackMachine.Code.Pages
import StackMachine.Engine.Frame
import StackMachine.Heap.CharArray
import StackMachine.Native.Operation
import StackMachine.OperandStack
import StackMachine.Settings
import StackMachine.Thread
import StackMachine.X64.Instruction

/-!
# The state of an execution

`Machine` is what all threads share: the program, the heap, compiled code, the output.  `Context` is
what one thread has: its operand stack, its frames and a fault that compiled code has been told to
stop for.  `Exec` is a computation on both that may stop early; the state is kept when it does.
-/

namespace StackMachine

/-! ### Compiled methods -/

/-- The operations of a compiled method, with the places of its jump targets. -/
structure NativeBody where
  ops : Array (Native.Operation X64.Reg X64.Xmm)
  places : List (JumpTarget × Nat)
  /-- Where its machine code was placed. -/
  entry : CodeAddress
  /-- The bytes of its machine code. -/
  codeLength : Nat
  /-- The entries of its literal pool. -/
  literals : Nat
  deriving Repr

/-- The outcome of compiling a method. -/
inductive CompileOutcome where
  | compiled (body : NativeBody)
  | failed (reason : String)
  deriving Repr

/-- What is known about a method: how often it was called before it was compiled, and the outcome of
compiling it. -/
structure MethodRecord where
  calls : Nat := 0
  outcome : Option CompileOutcome := none
  deriving Repr

/-! ### Threads -/

/-- What a thread was started with. -/
structure Task where
  callee : Method
  /-- The thread object, which is the instance of the call. -/
  thread : Word
  param : Word
  deriving Repr

/-- The work of a thread that is not joined yet. -/
inductive Work where
  | queued (task : Task)
  | running
  | ended (outcome : Outcome)
  deriving Repr

/-! ### Shared and per-thread state -/

/-- What all threads share. -/
structure Machine where
  program : Program
  settings : Settings
  heap : Heap
  /-- The memory of each class. -/
  statics : Array Word
  pool : FramePool := {}
  registry : Registry Work := {}
  /-- The methods that virtual calls have been bound to, by dynamic class and declared method. -/
  bindings : List ((Nat × MethodId) × Method) := []
  /-- What is known about each method, class by class. -/
  records : Array (Array MethodRecord)
  pages : CodePages := {}
  output : String := ""
  /-- The state of the random numbers. -/
  seed : UInt64
  /-- The time in milliseconds. -/
  clock : Word
  /-- Have all threads been told to stop? -/
  halted : Bool := false
  deriving Repr

/-- What one thread has. -/
structure Context where
  /-- Set when compiled code has to stop after a runtime call. -/
  halt : Word := 0
  /-- The number of frames, as compiled code sees it. -/
  callPos : Nat := 0
  stack : OperandStack
  /-- The active frames, innermost first. -/
  frames : List Frame := []
  /-- The fault that compiled code has to stop for. -/
  pending : Option Fault := none
  deriving Repr

/-- The state of an execution. -/
structure State where
  machine : Machine
  context : Context
  deriving Repr

/-- A context at rest. -/
def Context.fresh (settings : Settings) :
    Context := { stack := OperandStack.empty settings.opStackSize }

namespace Machine

/-- The memory of a class, nil for an unknown one. -/
def classMemory (m : Machine) (cls : Nat) : Word := m.statics.getD cls 0

/-- What is known about a method. -/
def record (m : Machine) (id : MethodId) : MethodRecord :=
  ((m.records[id.cls]?).bind fun row => row[id.index]?).getD {}

/-- Changes what is known about a method. -/
def modifyRecord (m : Machine) (id : MethodId) (f : MethodRecord → MethodRecord) : Machine :=
  { m with records := m.records.modify id.cls fun row => row.modify id.index f }

/-- The next random number, at least 0 and below 1. -/
def nextRandom (m : Machine) : Double × Machine :=
  let x := m.seed
  let x := x ^^^ (x <<< 13)
  let x := x ^^^ (x >>> 7)
  let x := x ^^^ (x <<< 17)
  (Double.ofQuotient false (x >>> 11).toNat (2 ^ 53), { m with seed := x })

/-- Tells all threads to stop if the settings ask for that after a fault. -/
def reportFault (m : Machine) : Machine :=
  if m.settings.onFault = .halt then { m with halted := true } else m

end Machine

/-! ### Computations -/

/-- Why a computation stops early. -/
inductive Stop where
  | fault (fault : Fault)
  /-- The runtime breaks off in the middle of what it does. -/
  | panic
  /-- It would wait or run forever. -/
  | stuck
  deriving DecidableEq, Repr

/-- A computation on the state. -/
abbrev Exec := EStateM Stop State

namespace Exec

/-- Stops with a cause. -/
def fail {α : Type} (cause : Cause) : Exec α := throw (.fault { cause })

/-- Lifts a computation that can fail. -/
def ofExcept {α : Type} : Except Cause α → Exec α
  | .ok a => pure a
  | .error cause => fail cause

/-- Reads the shared state. -/
@[inline] def asksMachine {α : Type} (f : Machine → α) : Exec α := return f (← get).machine

/-- Changes the shared state. -/
@[inline] def modifyMachine (f : Machine → Machine) : Exec Unit :=
  modify fun s => { s with machine := f s.machine }

/-- Reads the context. -/
@[inline] def asksContext {α : Type} (f : Context → α) : Exec α := return f (← get).context

/-- Changes the context. -/
@[inline] def modifyContext (f : Context → Context) : Exec Unit :=
  modify fun s => { s with context := f s.context }

/-! ### The operand stack -/

@[inline] def modifyStack (f : OperandStack → OperandStack) : Exec Unit :=
  modifyContext fun c => { c with stack := f c.stack }

def push (value : Word) : Exec Unit := fun s =>
  match s.context.stack.push value with
  | .ok stack => .ok () { s with context := { s.context with stack } }
  | .error cause => .error (.fault { cause }) s

def pushFloat (value : Double) : Exec Unit := push value.toWord

/-- Takes the word on top. -/
def pop : Exec Word := fun s =>
  match s.context.stack.pop with
  | .ok (value, stack) => .ok value { s with context := { s.context with stack } }
  | .error cause => .error (.fault { cause }) s

/-- Takes the double on top. -/
def popFloat : Exec Double := return Double.ofWord (← pop)

/-- The word on top. -/
def peek : Exec Word := do ofExcept (← asksContext fun c => c.stack.top?)

/-- Takes a handle that must not be nil. -/
def popHandle : Exec Word := do
  let handle ← pop
  if handle = 0 then fail .nilDereference
  return handle

/-- Takes `n` words, top first. -/
def popMany : Nat → Exec (List Word)
  | 0 => return []
  | n + 1 => do
    let value ← pop
    return value :: (← popMany n)

/-! ### The heap -/

/-- Reads the heap. -/
@[inline] def asksHeap {α : Type} (f : Heap → α) : Exec α := return f (← get).machine.heap

/-- Changes the heap. -/
@[inline] def modifyHeap (f : Heap → Heap) : Exec Unit :=
  modifyMachine fun m => { m with heap := f m.heap }

/-- Adds a block. -/
@[inline] def alloc (f : Heap → Except Heap.Denial (Word × Heap)) : Exec Word := fun s =>
  match f s.machine.heap with
  | .ok (handle, heap) => .ok handle { s with machine := { s.machine with heap } }
  | .error (.refused cause) => .error (.fault { cause }) s
  | .error (.broken heap) => .error .panic { s with machine := { s.machine with heap } }

/-! ### Frames -/

/-- The names of the active methods, innermost first. -/
def trace : Exec (List String) := do
  let s ← get
  return s.context.frames.filterMap fun f =>
    f.method.map fun m => m.qualifiedName s.machine.program

/-- The innermost frame. -/
@[inline] def asksFrame {α : Type} (f : Frame → α) : Exec α := do
  match (← get).context.frames with
  | frame :: _ => return f frame
  | [] => return f Frame.blank

/-- Changes the innermost frame. -/
@[inline] def modifyFrame (f : Frame → Frame) : Exec Unit :=
  modifyContext fun c =>
    match c with
    | { halt, callPos, stack, frames := frame :: rest, pending } =>
      { halt, callPos, stack, frames := f frame :: rest, pending }
    | c => c

/-- Takes a frame for a call, unless the call stack is full. -/
def pushFrame (method : Method) (receiver : Word) : Exec Unit := do
  let s ← get
  let limit := s.machine.settings.callStackSize
  if limit ≤ s.context.frames.length then
    throw (.fault { cause := .callDepthExceeded limit, trace := ← trace })
  let (frame?, pool) := s.machine.pool.acquire method receiver
  modifyMachine fun m => { m with pool }
  match frame? with
  | some frame =>
    modifyContext fun c =>
      { c with frames := frame :: c.frames, callPos := c.frames.length + 1 }
  | none => throw .panic

/-- Gives the innermost frame back. -/
def popFrame : Exec Unit := do
  match (← get).context.frames with
  | frame :: rest =>
    modifyMachine fun m => { m with pool := m.pool.release frame }
    modifyContext fun c => { c with frames := rest, callPos := rest.length }
  | [] => modifyContext fun c => { c with callPos := 0 }

/-- Runs a computation, and an action after it if it answers or fails; a fault is given the names of
the active methods before. -/
def finallyTraced (body : Exec Unit) (after : Exec Unit) : Exec Unit := fun s =>
  match body s with
  | .ok () s => after s
  | .error (.fault f) s =>
    match trace s with
    | .ok names s =>
      match after s with
      | .ok () s => .error (.fault (f.withTrace names)) s
      | .error stop s => .error stop s
    | .error stop s => .error stop s
  | .error stop s => .error stop s

/-! ### Locals -/

/-- The place of a local in the innermost frame. -/
def localPlace (slot : Word) : Exec Nat := do
  match ← asksFrame fun f => (f.place? slot, f.locals) with
  | (some place, _) => return place
  | (none, locals) => fail (.indexOverBounds slot (Word.ofNat locals))

def readLocal (slot : Word) : Exec Word := do
  let place ← localPlace slot
  asksFrame fun f => f.mem.getD place 0

def writeLocal (slot value : Word) : Exec Unit := do
  let place ← localPlace slot
  modifyFrame fun f => { f with mem := f.mem.setIfInBounds place value }

/-! ### Output -/

/-- Writes to the output. -/
def print (text : String) :
    Exec Unit := modifyMachine fun m => { m with output := m.output ++ text }

end Exec

/-! ### Start -/

/-- Adds the memory of each class in turn. -/
def allocStatics (heap : Heap) : List ClassDef → Except Heap.Denial (List Word × Heap)
  | [] => .ok ([], heap)
  | cls :: rest => do
    let (handle, heap) ← heap.allocStatic cls.id cls.staticWords
    let (handles, heap) ← allocStatics heap rest
    return (handle :: handles, heap)

/-- What an execution takes from the world: the time, and a seed for random numbers. -/
structure Surroundings where
  clock : Word := 1700000000000
  seed : UInt64 := 0x9E3779B97F4A7C15
  deriving DecidableEq, Repr

/-- A machine that has run nothing yet. -/
def Machine.start (program : Program) (settings : Settings) (world : Surroundings := {}) :
    Except Heap.Denial Machine := do
  let (statics, heap) ← allocStatics { limit := settings.heapLimit } program.classes.toList
  return {
    program, settings, heap
    statics := statics.toArray
    records := program.classes.map fun c => c.methods.map fun _ => {}
    seed := world.seed ||| 1
    clock := world.clock }

/-- A machine with one context at rest. -/
def State.start (program : Program) (settings : Settings) (world : Surroundings := {}) :
    Except Heap.Denial State := do
  return { machine := ← Machine.start program settings world, context := .fresh settings }

end StackMachine
