import StackMachine.Numeral

/-!
# Faults

A fault is a cause together with the names of the methods that were active, innermost first.  Two
causes, exhausted resources and an execution that was halted, say nothing about a place in the
program and carry no names.
-/

namespace StackMachine

/-- Why an execution stops. -/
inductive Cause where
  | nilDereference
  | indexUnderBounds (index : Word)
  | indexOverBounds (index bound : Word)
  | divideByZero
  | invalidCast (source target : String)
  | invalidArraySize (size : Word)
  | stackOverflow
  | stackUnderflow
  | callDepthExceeded (limit : Nat)
  | invalidMethod (cls method : Word)
  | invalidClass (cls : Word)
  | invalidJump (target : Word)
  | unknownTrap (code : Word)
  | unsupported (op : String)
  | thread (message : String)
  | resourceExhausted (message : String)
  | halted
  deriving DecidableEq, Repr

namespace Cause

/-- The wording of a cause. -/
def message : Cause → String
  | nilDereference => "attempting to dereference a 'Nil' memory instance"
  | indexUnderBounds index =>
    "index out of bounds: " ++ Numeral.signedDecimal index.toInt ++ " < 0"
  | indexOverBounds index bound =>
    "index out of bounds: " ++ Numeral.signedDecimal index.toInt ++ " >= " ++
      Numeral.signedDecimal bound.toInt
  | divideByZero => "attempting to divide by zero"
  | invalidCast source target => "invalid object cast: '" ++ source ++ "' to '" ++ target ++ "'"
  | invalidArraySize size => "invalid array size " ++ Numeral.signedDecimal size.toInt
  | stackOverflow => "operand stack overflow"
  | stackUnderflow => "operand stack underflow"
  | callDepthExceeded limit => "call stack exceeded " ++ Numeral.signedDecimal limit ++ " frames"
  | invalidMethod cls method =>
    "invalid method reference " ++ Numeral.signedDecimal cls.toInt ++ ":" ++
      Numeral.signedDecimal method.toInt
  | invalidClass cls => "invalid class reference " ++ Numeral.signedDecimal cls.toInt
  | invalidJump target => "invalid jump target " ++ Numeral.signedDecimal target.toInt
  | unknownTrap code => "unknown trap code " ++ Numeral.signedDecimal code.toInt
  | unsupported op => "unsupported instruction " ++ op
  | thread message => "thread error: " ++ message
  | resourceExhausted message => "host resources exhausted: " ++ message
  | halted => "execution halted"

/-- Does a fault of this cause record where it happened? -/
def isTraced : Cause → Bool
  | resourceExhausted _ | halted => false
  | _ => true

/-- The number compiled code returns for the faults it can raise itself. -/
def status? : Cause → Option Word
  | nilDereference => some (-1)
  | indexUnderBounds _ => some (-2)
  | indexOverBounds _ _ => some (-3)
  | divideByZero => some (-4)
  | stackOverflow => some (-5)
  | _ => none

/-- The cause a returned number reports.  The number tells neither index nor bound. -/
def ofStatus? (status : Word) : Option Cause :=
  if status = -1 then some .nilDereference
  else if status = -2 then some (.indexUnderBounds 0)
  else if status = -3 then some (.indexOverBounds 0 0)
  else if status = -4 then some .divideByZero
  else if status = -5 then some .stackOverflow
  else none

/-- A number that reports a cause is the number of that cause. -/
theorem status?_of_ofStatus? {status : Word} {cause : Cause} (h : ofStatus? status = some cause) :
    cause.status? = some status := by
  unfold ofStatus? at h
  repeat' split at h
  all_goals cases h
  all_goals subst_vars; rfl

/-- Do two causes differ at most in their details? -/
def sameKind (a b : Cause) : Bool := a.ctorIdx == b.ctorIdx

end Cause

/-- A cause with the qualified names of the active methods, innermost first. -/
structure Fault where
  cause : Cause
  trace : List String := []
  deriving DecidableEq, Repr

namespace Fault

/-- The wording of a fault. -/
def message (f : Fault) : String := f.cause.message

/-- Records the active methods unless they are recorded already or the cause has no place. -/
def withTrace (names : List String) (f : Fault) : Fault :=
  if f.cause.isTraced ∧ f.trace.isEmpty then { f with trace := names } else f

end Fault

end StackMachine
