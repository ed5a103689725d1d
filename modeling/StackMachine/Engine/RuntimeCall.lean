import StackMachine.Engine.State

/-!
# Runtime calls

The operations that neither engine performs itself: calls, allocation, type tests, text conversion,
bulk copies, threads, traps and the float library.  They take their operands from the operand stack
and leave their results there.  How a method is called is a parameter.

A started thread is queued and runs when it is joined, or when another thread sleeps.  A thread that
would have to wait for the one that lets it run is left in the queue.
-/

namespace StackMachine.RuntimeCall

open Exec

/-- How a method is called: the method, the instance, and whether the call asks for compiled
code. -/
abbrev Invoke := Method → Word → Bool → Exec Unit

/-! ### Calls -/

/-- The method two words name. -/
def callee (cls index : Word) : Exec Method := do
  match ← asksMachine fun m => m.program.callee? cls index with
  | some method => return method
  | none => fail (.invalidMethod cls index)

/-- The method that a call of `method` means for an instance: the nearest one of its name from the
instance's class on, if it is virtual. -/
def bindVirtual (p : Program) (method : Method) (dynamic : Nat) : Method :=
  (p.findMethod? dynamic method.name).getD method

/-- Binds a call to the instance's class, and keeps the answer for the next time. -/
def resolve (method : Method) (receiver : Word) : Exec Method := do
  if ¬method.isVirtual then return method
  match ← asksHeap fun h => h.classOf? receiver with
  | none => return method
  | some dynamic =>
    match ← asksMachine fun m => m.bindings.lookup (dynamic, method.id) with
    | some bound => return bound
    | none =>
      let bound ← asksMachine fun m => bindVirtual m.program method dynamic
      modifyMachine fun m => { m with bindings := ((dynamic, method.id), bound) :: m.bindings }
      return bound

/-- Calls the method that the operands name. -/
def callMethod (invoke : Invoke) (instr : Instruction) : Exec Unit := do
  let method ← callee instr.operand instr.operand2
  let receiver ← pop
  invoke (← resolve method receiver) receiver (instr.operand3 == 1)

/-- Calls the method that a function value names: the class above the low 16 bits. -/
def callFunction (invoke : Invoke) : Exec Unit := do
  let packed ← pop
  let receiver ← pop
  invoke (← callee (packed >>> 16) (packed &&& 0xFFFF)) receiver false

/-! ### Allocation -/

/-- Makes an array from the extents on the stack, the outermost on top. -/
def newArray (kind : ElemKind) (instr : Instruction) : Exec Unit := do
  if Word.rowLimit ≤ instr.dims then throw .panic
  let extents ← popMany instr.dims
  push (← alloc fun h => h.allocArray kind extents)

/-- Makes an object. -/
def newObject (cls : Word) : Exec Unit := do
  match ← asksMachine fun m => m.program.class? (Word.toUnsigned cls) with
  | some c => push (← alloc fun h => h.allocObject c.id c.instanceWords)
  | none => fail (.invalidClass cls)

/-- Makes the memory of a closure. -/
def newClosure (words : Word) : Exec Unit := do
  push (← alloc fun h => h.allocClosure ((Word.toIndex? words).getD 0))

/-! ### Arrays and objects -/

/-- The outermost extent of an array. -/
def arraySize : Exec Unit := do
  let array ← popHandle
  push (← asksHeap fun h => h.arrayExtent array 0)

/-- Copies a range of elements and tells whether the ranges fit. -/
def copyArray (kind : ElemKind) : Exec Unit := do
  let length ← pop
  let srcOffset ← pop
  let src ← pop
  let destOffset ← pop
  let dest ← pop
  if src = 0 ∨ dest = 0 then fail .nilDereference
  match ← asksHeap fun h => h.copyElements kind dest destOffset src srcOffset length with
  | some heap =>
    modifyHeap fun _ => heap
    push 1
  | none => push 0

def zeroArray (kind : ElemKind) : Exec Unit := do
  let array ← popHandle
  modifyHeap fun h => h.zeroElements kind array

/-- Is the class of an object a class or one of its descendants? -/
def isInstance (m : Machine) (object cls : Word) : Bool :=
  (m.heap.classOf? object).any fun own => m.program.isA own (Word.toUnsigned cls)

/-- Tests the class of an object. -/
def typeOf (cls : Word) : Exec Unit := do
  let object ← pop
  push (Word.ofBool (← asksMachine fun m => isInstance m object cls))

def className (p : Program) (cls : Option Nat) : String :=
  ((cls.bind p.class?).map ClassDef.name).getD "?"

/-- Checks the class of an object; nil is of every class. -/
def cast (cls : Word) : Exec Unit := do
  let object ← pop
  let m ← asksMachine id
  if object = 0 ∨ isInstance m object cls then push object
  else
    fail (.invalidCast (className m.program (m.heap.classOf? object))
      (className m.program (some (Word.toUnsigned cls))))

/-! ### Text -/

/-- Writes text into a char array; nil takes nothing. -/
def writeText (array : Word) (text : String) : Exec Unit :=
  if array = 0 then pure () else modifyHeap fun h => h.writeText array text

/-- Writes an integer in a base. -/
def intToText : Exec Unit := do
  let array ← pop
  let base ← pop
  let value ← pop
  writeText array (Numeral.write base value)

/-- Writes a double with six places. -/
def floatToText : Exec Unit := do
  let array ← pop
  let value ← popFloat
  writeText array (value.fixed 6)

/-- Reads an integer. -/
def textToInt : Exec Unit := do
  let array ← popHandle
  let base ← pop
  push (Numeral.read base (← asksHeap fun h => h.readText array))

/-- Reads a double. -/
def textToFloat : Exec Unit := do
  let array ← popHandle
  pushFloat (Numeral.readDouble (← asksHeap fun h => h.readText array))

/-! ### Doubles -/

/-- Replaces the double on top. -/
def unary (f : Float → Float) : Exec Unit := do
  pushFloat (Double.ofFloat (f (← popFloat).toFloat))

/-- Combines two doubles, the right one on top. -/
def binary (f : Double → Double → Double) : Exec Unit := do
  let right ← popFloat
  let left ← popFloat
  pushFloat (f left right)

/-- Combines two doubles by a function of floats. -/
def binaryFloat (f : Float → Float → Float) : Exec Unit :=
  binary fun a b => Double.ofFloat (f a.toFloat b.toFloat)

/-- A random number. -/
def random : Exec Unit := do
  let (value, machine) ← asksMachine Machine.nextRandom
  modifyMachine fun _ => machine
  pushFloat value

/-! ### Threads -/

/-- What a thread does: it calls its method, and a fault of the call is reported. -/
def work (invoke : Invoke) (task : Task) : Exec Unit := do
  push task.param
  try invoke task.callee task.thread false
  catch
    | .fault f =>
      modifyMachine Machine.reportFault
      throw (.fault f)
    | stop => throw stop

/-- Runs a thread in a context of its own. -/
def runTask (invoke : Invoke) (task : Task) : Exec Outcome := fun s =>
  match s with
  | { machine, context } =>
    let fresh := Context.fresh machine.settings
    match work invoke task { machine, context := fresh } with
    | .ok () t => .ok .finished { machine := t.machine, context }
    | .error (.fault f) t => .ok (.failed f) { machine := t.machine, context }
    | .error .panic t => .ok .panicked { machine := t.machine, context }
    | .error .stuck t => .error .stuck { machine := t.machine, context }

/-- Changes the threads and mutexes. -/
def modifyRegistry (f : Registry Work → Registry Work) : Exec Unit :=
  modifyMachine fun m => { m with registry := f m.registry }

/-- Waits for a thread and reports its failure. -/
def join (invoke : Invoke) (id : Word) : Exec Unit := do
  match ← asksMachine fun m => m.registry.work? id with
  | none => pure ()
  | some .running => throw .stuck
  | some (.ended outcome) =>
    modifyRegistry fun r => r.remove id
    ofExcept (outcome.report id)
  | some (.queued task) =>
    modifyRegistry fun r => r.remove id
    ofExcept ((← runTask invoke task).report id)

/-- Waits for threads in turn, also after a failure, and reports the first one. -/
def joinEach (invoke : Invoke) : List Word → Exec Unit
  | [] => pure ()
  | id :: rest => do
    try join invoke id
    catch
      | .fault f =>
        try joinEach invoke rest
        catch
          | .fault _ => pure ()
          | stop => throw stop
        throw (.fault f)
      | stop => throw stop
    joinEach invoke rest

/-- Waits for every thread. -/
def joinAll (invoke : Invoke) : Exec Unit := do
  joinEach invoke (← asksMachine fun m => m.registry.threads.map Prod.fst)

/-- Runs a queued thread; one that would have to wait stays in the queue. -/
def advance (invoke : Invoke) (id : Word) : Exec Unit := fun s =>
  match s.machine.registry.work? id with
  | some (.queued task) =>
    let attempt : Exec Unit := do
      modifyRegistry fun r => r.setWork id .running
      let outcome ← runTask invoke task
      modifyRegistry fun r => r.setWork id (.ended outcome)
    match attempt s with
    | .error .stuck _ => .ok () s
    | result => result
  | _ => .ok () s

/-- Runs queued threads in turn. -/
def advanceEach (invoke : Invoke) : List Word → Exec Unit
  | [] => pure ()
  | id :: rest => do
    advance invoke id
    advanceEach invoke rest

/-- Lets time pass, and the other threads run. -/
def sleep (invoke : Invoke) : Exec Unit := do
  let millis ← pop
  modifyMachine fun m => { m with clock := m.clock + max millis 0 }
  advanceEach invoke (← asksMachine fun m => m.registry.threads.map Prod.fst)

/-- Starts a thread.  Its object keeps its number. -/
def startThread (instr : Instruction) : Exec Unit := do
  let thread ← popHandle
  let param ← pop
  let callee ← callee instr.operand instr.operand2
  let (id, registry) ← asksMachine fun m => m.registry.spawn (.queued { callee, thread, param })
  modifyRegistry fun _ => registry
  modifyHeap fun h => h.setWord thread 0 id

/-- Waits for the thread of an object. -/
def joinThread (invoke : Invoke) : Exec Unit := do
  let thread ← popHandle
  join invoke (← asksHeap fun h => h.word thread 0)

/-- Makes a mutex.  Its object keeps its number. -/
def newMutex : Exec Unit := do
  let object ← popHandle
  let (id, registry) ← asksMachine fun m => m.registry.newMutex
  modifyRegistry fun _ => registry
  modifyHeap fun h => h.setWord object 1 id

/-- Enters the critical section of an object. -/
def enterCritical : Exec Unit := do
  let object ← popHandle
  let id ← asksHeap fun h => h.word object 1
  match ← ofExcept (← asksMachine fun m => m.registry.lock id) with
  | some registry => modifyRegistry fun _ => registry
  | none => throw .stuck

/-- Leaves the critical section of an object. -/
def leaveCritical : Exec Unit := do
  let object ← popHandle
  let id ← asksHeap fun h => h.word object 1
  let registry ← ofExcept (← asksMachine fun m => m.registry.unlock id)
  modifyRegistry fun _ => registry

/-! ### Traps -/

/-- The text of a char array as it is printed. -/
def printed (array : Word) : Exec String :=
  if array = 0 then return "Nil" else asksHeap fun h => h.readText array

/-- Performs the service that the word on top numbers. -/
def trap : Exec Unit := do
  let code ← pop
  match TrapCode.ofCode? code with
  | none => fail (.unknownTrap code)
  | some .stdOutInt => do print (Numeral.signedDecimal (← pop).toInt)
  | some .stdOutFloat => do print (← popFloat).shortest
  | some .stdOutChar => do print (Text.charOfCode (Word.lowHalf (← pop))).toString
  | some .stdOutString => do print (← printed (← pop))
  | some .stdOutNewline => print "\n"
  | some .sysTimeMillis => do push (← asksMachine Machine.clock)

/-! ### All together -/

def perform (invoke : Invoke) (instr : Instruction) : Exec Unit :=
  match instr.op with
  | .mthdCall => callMethod invoke instr
  | .dynMthdCall => callFunction invoke
  | .asyncMthdCall => startThread instr
  | .loadArySize => arraySize
  | .newByteAry => newArray .byte instr
  | .newCharAry => newArray .char instr
  | .newIntAry => newArray .int instr
  | .newFloatAry => newArray .float instr
  | .newObjInst => newObject instr.operand
  | .newFuncInst => newClosure instr.operand
  | .cpyByteAry => copyArray .byte
  | .cpyCharAry => copyArray .char
  | .cpyIntAry => copyArray .int
  | .cpyFloatAry => copyArray .float
  | .zeroByteAry => zeroArray .byte
  | .zeroCharAry => zeroArray .char
  | .zeroIntAry => zeroArray .int
  | .zeroFloatAry => zeroArray .float
  | .objTypeOf => typeOf instr.operand
  | .objInstCast => cast instr.operand
  | .i2s => intToText
  | .f2s => floatToText
  | .s2i => textToInt
  | .s2f => textToFloat
  | .randFloat => random
  | .florFloat => unary Float.floor
  | .ceilFloat => unary Float.ceil
  | .sinFloat => unary Float.sin
  | .cosFloat => unary Float.cos
  | .tanFloat => unary Float.tan
  | .asinFloat => unary Float.asin
  | .acosFloat => unary Float.acos
  | .atanFloat => unary Float.atan
  | .logFloat => unary Float.log
  | .sqrtFloat => unary Float.sqrt
  | .atan2Float => binaryFloat Float.atan2
  | .modFloat => binary Double.remainder
  | .powFloat => binaryFloat Float.pow
  | .threadJoin => joinThread invoke
  | .threadSleep => sleep invoke
  | .threadMutex => newMutex
  | .criticalStart => enterCritical
  | .criticalEnd => leaveCritical
  | .trap | .trapRtrn => trap
  | op => fail (.unsupported op.name)

end StackMachine.RuntimeCall
