import StackMachine.Engine.Call

/-!
# Sessions

What can be asked of a machine from outside: running methods, single runtime calls, and the operand
stack of the current context.
-/

namespace StackMachine.Session

open Exec

/-- More steps than any execution can take in practice. -/
def enough : Nat := 2 ^ 48

def pushEach : List Word → Exec Unit
  | [] => pure ()
  | value :: rest => do
    push value
    pushEach rest

/-- Calls a method. -/
def invoke (method : Method) (receiver : Word) (nativeSite : Bool) : Exec Unit :=
  Call.invoke enough method receiver nativeSite

/-- Runs a method on arguments, with compiled code if possible. -/
def run (method : Method) (args : List Word) : Exec Unit := do
  pushEach args
  invoke method 0 true

/-- Performs one runtime call. -/
def perform (instr : Instruction) : Exec Unit := RuntimeCall.perform (Call.invoke enough) instr

/-- Performs one runtime call the way compiled code does, and answers whether it would go on. -/
def fromNative (tag : Word) (instr? : Option Instruction) : Exec Word := do
  Call.fromNative perform tag instr? 1
  asksContext Context.halt

/-- Waits for every thread. -/
def joinAll : Exec Unit := RuntimeCall.joinAll (Call.invoke enough)

/-- Starts over with a new context. -/
def renew : Exec Unit :=
  modify fun s => { s with context := .fresh s.machine.settings }

/-- Reports a fault that nobody handled, and answers whether all threads have been told to stop. -/
def reportFault : Exec Bool := do
  modifyMachine Machine.reportFault
  asksMachine Machine.halted

/-- Draws random numbers and tells whether all are at least 0 and below 1. -/
def randomsInRange : Nat → Exec Bool
  | 0 => return true
  | n + 1 => do
    RuntimeCall.random
    let value ← popFloat
    let rest ← randomsInRange n
    return Double.compare .ge value Double.zero && Double.compare .lt value
      (Double.ofInt64 1) && rest

/-- The outcome of compiling each method, class by class. -/
def outcomes (m : Machine) : List (Method × Option CompileOutcome) :=
  m.program.allMethods.map fun method => (method, (m.record method.id).outcome)

end StackMachine.Session
