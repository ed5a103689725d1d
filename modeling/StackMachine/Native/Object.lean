import StackMachine.Target
import StackMachine.Code.Listing
import StackMachine.Native.Generator
import StackMachine.X64.Lowering
import StackMachine.A64.Lowering

/-!
# Compiled methods

Generation and lowering put together: a method becomes machine code with its literal pool.  Nothing
is installed, so any target can be compiled for.
-/

namespace StackMachine.Native

/-- Machine code with its literal pool. -/
structure Object where
  code : CodeBuffer
  literals : List UInt64
  deriving DecidableEq, Repr

variable {γ φ lits : Type}

/-- Lowers the operations of a method and patches its branches.  An operation that cannot be lowered
is reported before a failure that came after it. -/
def assemble (backend : Backend γ φ lits) (ops : List (Operation γ φ))
    (failure : Option CompileError) : Except CompileError Object := do
  let assembly ← Assembly.emitAll backend { literals := backend.noLiterals } ops
  if let some e := failure then throw e
  match assembly.fixups.resolve assembly.code with
  | (.ok (), code) => return ⟨code, backend.literalWords assembly.literals⟩
  | (.error e, _) => throw (.fixup e)

def compileWith [DecidableEq γ] [DecidableEq φ] (backend : Backend γ φ lits) (scope : Scope) :
    Except CompileError (List (Operation γ φ) × Object) := do
  let slots := frameSlots (layoutLocals scope.method.localWords)
  if backend.maxSlots.any (· < slots) then
    throw (.unsupported ("frame of " ++ Numeral.signedDecimal slots ++ " slots") 0)
  let (ops, failure) := generate backend.ints backend.floats scope
  return (ops, ← assemble backend ops failure)

def compile (target : Target) (scope : Scope) : Except CompileError Object := do
  match target.resolve with
  | .x64Win64 => return (← compileWith (X64.backend .win64 scope.addresses) scope).2
  | .a64 => return (← compileWith (A64.backend scope.addresses) scope).2
  | _ => return (← compileWith (X64.backend .sysV scope.addresses) scope).2

/-- Compiles every method of a program, class by class. -/
def compileAll (target : Target) (program : Program) :
    List (Method × Except CompileError Object) :=
  program.allMethods.map fun method => (method, compile target { program, method })

end StackMachine.Native
