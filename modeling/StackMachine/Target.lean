/-!
# Targets

The machines code can be generated for, and the one it runs on.
-/

namespace StackMachine

/-- What code is generated for. -/
inductive Target where
  /-- Whatever this machine is. -/
  | host
  | x64SysV
  | x64Win64
  | a64
  deriving DecidableEq, Repr

namespace Target

def all : List Target := [.host, .x64SysV, .x64Win64, .a64]

def name : Target → String
  | .host => "host"
  | .x64SysV => "x86_64-sysv"
  | .x64Win64 => "x86_64-win64"
  | .a64 => "aarch64"

def ofName? (name : String) : Option Target := all.find? fun t => t.name == name

@[simp]
theorem ofName?_name (t : Target) : ofName? t.name = some t := by cases t <;> rfl

/-- The machine code runs on. -/
def this : Target := .x64SysV

/-- The concrete target. -/
def resolve : Target → Target
  | .host => this
  | t => t

/-- Can code for the target run here? -/
def isExecutable (t : Target) : Bool := t.resolve == this

end Target

end StackMachine
