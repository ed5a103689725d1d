import StackMachine.Target
import StackMachine.Toml

/-!
# Settings

What can be chosen about an execution: when methods are compiled, the sizes of the stacks, a limit
on the heap, and what happens after a fault.  Settings are written as a flat document; what it does
not set keeps its default, and it may set nothing else.
-/

namespace StackMachine

/-- When methods are compiled. -/
inductive JitMode where
  | off
  /-- At the first call. -/
  | on
  /-- At a call that asks for it, or when a method has been called often. -/
  | auto
  deriving DecidableEq, Repr

namespace JitMode

def all : List JitMode := [.off, .on, .auto]

def name : JitMode → String
  | .off => "off"
  | .on => "on"
  | .auto => "auto"

def ofName? (name : String) : Option JitMode := all.find? fun m => m.name == name

@[simp]
theorem ofName?_name (m : JitMode) : ofName? m.name = some m := by cases m <;> rfl

end JitMode

/-- What happens after a fault that nobody handles. -/
inductive FaultPolicy where
  /-- The process ends with a failure code. -/
  | exit
  /-- Every thread stops at its next call. -/
  | halt
  deriving DecidableEq, Repr

namespace FaultPolicy

def all : List FaultPolicy := [.exit, .halt]

def name : FaultPolicy → String
  | .exit => "exit"
  | .halt => "halt"

def ofName? (name : String) : Option FaultPolicy := all.find? fun p => p.name == name

@[simp]
theorem ofName?_name (p : FaultPolicy) : ofName? p.name = some p := by cases p <;> rfl

end FaultPolicy

/-- The settings of an execution. -/
structure Settings where
  jitMode : JitMode := .auto
  /-- Calls after which a method is compiled in the mode `auto`. -/
  jitThreshold : Nat := 1000
  /-- Are listings of compiled code logged? -/
  traceJit : Bool := false
  onFault : FaultPolicy := .exit
  /-- Words an operand stack has room for. -/
  opStackSize : Nat := 256
  /-- The most frames of one call stack. -/
  callStackSize : Nat := 1024
  target : Target := .host
  /-- The most words of the heap. -/
  heapLimit : Option Nat := none
  logLevel : String := "warn"
  deriving DecidableEq, Repr

namespace Settings

open Toml (Scalar)

/-- A size that fits 64 bits with a sign. -/
def size? : Scalar → Option Nat
  | .integer n => if 0 ≤ n then some n.toNat else none
  | _ => none

/-- A count of 32 bits. -/
def count? (value : Scalar) : Option Nat := (size? value).filter fun n => decide (n < 2 ^ 32)

/-- A truth value. -/
def boolean? : Scalar → Option Bool
  | .boolean b => some b
  | _ => none

def text? : Scalar → Option String
  | .text s => some s
  | _ => none

def assign? (s : Settings) (key : String) (value : Scalar) : Option Settings :=
  match key with
  | "jit_mode" => ((text? value).bind JitMode.ofName?).map fun jitMode => { s with jitMode }
  | "jit_threshold" => (count? value).map fun jitThreshold => { s with jitThreshold }
  | "trace_jit" => (boolean? value).map fun traceJit => { s with traceJit }
  | "on_fault" => ((text? value).bind FaultPolicy.ofName?).map fun onFault => { s with onFault }
  | "op_stack_size" => (size? value).map fun opStackSize => { s with opStackSize }
  | "call_stack_size" => (size? value).map fun callStackSize => { s with callStackSize }
  | "target" => ((text? value).bind Target.ofName?).map fun target => { s with target }
  | "heap_limit" => (size? value).map fun limit => { s with heapLimit := some limit }
  | "log_level" => (text? value).map fun logLevel => { s with logLevel }
  | _ => none

/-- The settings that keys are set to, the others at their defaults. -/
def ofEntries? (entries : List (String × Scalar)) : Option Settings :=
  entries.foldlM (fun s (key, value) => s.assign? key value) {}

/-- Every key with its value; the heap limit may have none. -/
def entries (s : Settings) : List (String × Option Scalar) :=
  [("jit_mode", some (.text s.jitMode.name)),
    ("jit_threshold", some (.integer s.jitThreshold)),
    ("trace_jit", some (.boolean s.traceJit)),
    ("on_fault", some (.text s.onFault.name)),
    ("op_stack_size", some (.integer s.opStackSize)),
    ("call_stack_size", some (.integer s.callStackSize)),
    ("target", some (.text s.target.name)),
    ("heap_limit", s.heapLimit.map fun n => .integer n),
    ("log_level", some (.text s.logLevel))]

/-- The settings that a document describes. -/
def ofToml? (text : String) : Option Settings := (Toml.parse? text).bind ofEntries?

end Settings

/-! ### Configuration files -/

/-- Why a configuration file cannot be used. -/
inductive ConfigError where
  | unreadable (path reason : String)
  | invalid (path : String)
  deriving DecidableEq, Repr

namespace ConfigError

/-- The reason of a file that does not exist. -/
def missingFile : String := "No such file or directory (os error 2)"

/-- The wording of an error. -/
def message : ConfigError → String
  | .unreadable path reason => "failed to read config " ++ path ++ ": " ++ reason
  | .invalid path => "invalid config " ++ path

end ConfigError

/-- The settings of a configuration file, given its text or why there is none. -/
def Settings.ofFile (path : String) : Except String String → Except ConfigError Settings
  | .error reason => .error (.unreadable path reason)
  | .ok text =>
    match Settings.ofToml? text with
    | some settings => .ok settings
    | none => .error (.invalid path)

end StackMachine
