import StackMachine.Engine.Interpreter
import StackMachine.Engine.RuntimeCall
import StackMachine.Native.Object
import StackMachine.Native.Processor

/-!
# Calls

A call chooses between interpreting a method and running its compiled body, takes a frame, and gives
the caller its stack back if the method fails.  Compiled code cannot carry a fault: a fault within a
runtime call is kept in the context, the body is told to halt, and the fault goes on from the call
that entered the body.  So is it told if the runtime breaks off, and the frames of the methods that
were broken off stay on the call stack.

Calls nest through the runtime, so they are bounded by fuel; running out of it counts as running
forever.
-/

namespace StackMachine.Call

open Exec

/-! ### Compiling -/

def compile (m : Machine) (method : Method) : Except PageError (CompileOutcome × CodePages) :=
  match Native.compileWith (X64.backend .sysV) { program := m.program, method } with
  | .error e => .ok (.failed e.message, m.pages)
  | .ok (ops, object) =>
    match m.pages.install object.code.bytes with
    | .error e => .error e
    | .ok (entry, pages) =>
      .ok (.compiled {
        ops := ops.toArray
        places := Native.places ops
        entry
        codeLength := object.code.bytes.size
        literals := object.literals.length }, pages)

/-- Is a method that has no outcome yet compiled at this call?  In the mode `auto` a call that does
not ask for compiled code is counted. -/
def isWanted (settings : Settings) (nativeSite : Bool) (calls : Nat) : Bool :=
  match settings.jitMode with
  | .off => false
  | .on => true
  | .auto => nativeSite || decide (settings.jitThreshold ≤ calls)

/-- Counts a call if the mode depends on it, and answers the count. -/
def countCall (method : Method) (nativeSite : Bool) : Exec Nat := do
  if (← asksMachine fun m => m.settings.jitMode) = .auto ∧ ¬nativeSite then
    modifyMachine fun m => m.modifyRecord method.id fun r => { r with calls := r.calls + 1 }
  asksMachine fun m => (m.record method.id).calls

def settleOutcome (method : Method) : Exec CompileOutcome := do
  let settle (outcome : CompileOutcome) : Exec Unit :=
    modifyMachine fun m => m.modifyRecord method.id fun r => { r with outcome := some outcome }
  match ← asksMachine fun m => compile m method with
  | .ok (outcome, pages) =>
    modifyMachine fun m => { m with pages }
    settle outcome
    return outcome
  | .error e =>
    let cause := Cause.resourceExhausted e.message
    settle (.failed cause.message)
    fail cause

/-- The compiled body of a method, if this call is to run one. -/
def nativeBody (method : Method) (nativeSite : Bool) : Exec (Option NativeBody) := do
  let settings ← asksMachine Machine.settings
  if settings.jitMode = .off ∨ ¬settings.target.isExecutable then return none
  let outcome? ← do
    match ← asksMachine fun m => (m.record method.id).outcome with
    | some outcome => pure (some outcome)
    | none =>
      if isWanted settings nativeSite (← countCall method nativeSite) then
        pure (some (← settleOutcome method))
      else pure none
  match outcome? with
  | some (.compiled body) => return some body
  | _ => return none

/-! ### Runtime calls from compiled code -/

/-- Keeps a fault, unless one is kept already, and tells compiled code to halt. -/
def park (f : Fault) : Exec Unit :=
  modifyContext fun c => { c with pending := c.pending.orElse fun _ => some f, halt := 1 }

/-- Takes the kept fault, and lets compiled code run again. -/
def takePending : Exec (Option Fault) := do
  let pending ← asksContext Context.pending
  modifyContext fun c => { c with pending := none, halt := 0 }
  return pending

/-- Keeps a fault with the names of the active methods. -/
def parkTraced (f : Fault) : Exec Unit := do park (f.withTrace (← trace))

/-- A runtime call from compiled code, which says which operation it expects.  A fault is kept, and
a fault is kept as well if the runtime breaks off. -/
def fromNative (perform : Instruction → Exec Unit) (tag : Word) (instr? : Option Instruction)
    (ip : Word) : Exec Unit := do
  let written := "tag " ++ Numeral.signedDecimal tag.toInt
  match instr? with
  | none => parkTraced { cause := .unsupported written }
  | some instr =>
    if (Word.toIndex? tag).bind Opcode.ofTag? = some instr.op then
      modifyFrame fun f => { f with ip := (Word.toIndex? ip).getD 0 }
      try perform instr
      catch
        | .fault f => parkTraced f
        | .panic => parkTraced { cause := .unsupported ("panic while executing " ++ instr.op.name) }
        | .stuck => throw .stuck
    else parkTraced { cause := .unsupported (written ++ " for " ++ instr.op.name) }

def instructionAt? (addresses : Native.Addresses) (method : Method) (address : Word) :
    Option Instruction :=
  (Word.toIndex? (address - addresses.code)).bind fun index => method.code[index]?

/-- The runtime as the compiled body of a method calls it. -/
def callback (perform : Instruction → Exec Unit) (addresses : Native.Addresses) (method : Method) :
    Native.Callback := fun tag address ip =>
  fromNative perform tag (instructionAt? addresses method address) ip

/-! ### The two engines -/

/-- Interprets a method in a frame of its own. -/
def interpret (perform : Instruction → Exec Unit) (fuel : Nat) (method : Method) (receiver : Word) :
    Exec Unit := do
  pushFrame method receiver
  finallyTraced (Interpreter.run perform method fuel 0) popFrame

/-- The cause that a compiled body reports. -/
def statusCause (status : Word) : Cause :=
  (Cause.ofStatus? status).getD
    (.unsupported ("native status " ++ Numeral.signedDecimal status.toInt))

/-- Ends the call of a compiled body: a kept fault comes first, then what the status reports. -/
def finishNative (status : Word) : Exec Unit := do
  match ← takePending with
  | some fault =>
    popFrame
    throw (.fault fault)
  | none =>
    if status < 0 then finallyTraced (fail (statusCause status)) popFrame
    else popFrame

/-- Runs the compiled operations of a method in a frame of its own. -/
def runNative {γ φ : Type} [DecidableEq γ] [DecidableEq φ] (perform : Instruction → Exec Unit)
    (addresses : Native.Addresses) (fuel : Nat) (ops : Array (Native.Operation γ φ))
    (places : List (JumpTarget × Nat)) (method : Method) (receiver : Word) : Exec Unit := do
  pushFrame method receiver
  let classMemory ← asksMachine fun m => m.classMemory method.id.cls
  let status ← Native.Processor.run (callback perform addresses method)
    { method := method.id, classMemory, receiver } ops places fuel 0 {}
  finishNative status

/-- Cuts the operand stack back after a fault. -/
def restoring (floor : Nat) (body : Exec Unit) : Exec Unit := do
  try body
  catch
    | .fault f =>
      modifyStack fun s => s.truncate floor
      throw (.fault f)
    | stop => throw stop

/-- Which engine runs a call: the compiled body of a method if there is to be one, at a call that
may ask for it. -/
abbrev Choice := Method → Bool → Exec (Option NativeBody)

/-- Calls a method with a choice of engines.  A fault leaves the operand stack as it was below the
arguments. -/
def invokeWith (choose : Choice) : Nat → Method → Word → Bool → Exec Unit
  | 0, _, _, _ => throw .stuck
  | fuel + 1, method, receiver, nativeSite => do
    if ← asksMachine Machine.halted then fail .halted
    let floor ← asksContext fun c => c.stack.size - method.params
    let perform := RuntimeCall.perform (invokeWith choose fuel)
    match ← choose method nativeSite with
    | some body =>
      restoring floor (runNative perform {} fuel body.ops body.places method receiver)
    | none => restoring floor (interpret perform fuel method receiver)

/-- Calls a method, compiled as the settings ask for it. -/
def invoke : Nat → Method → Word → Bool → Exec Unit := invokeWith nativeBody

end StackMachine.Call
