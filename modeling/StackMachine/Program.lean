import StackMachine.Bytecode.Instruction
import StackMachine.Text

/-!
# Programs

A program is a list of classes with their methods and an entry point.  Classes and methods are named
by their place.  A class may have a parent; `Program.isA` and `Program.findMethod?` walk from a
class through its parents.  A walk takes at most one step per class, since a longer one has come
back to a class it has seen.
-/

namespace StackMachine

/-- What a method leaves on the operand stack. -/
inductive ReturnKind where
  | void
  | int
  | float
  /-- A function value: a packed method reference and the memory it closes over. -/
  | func
  deriving DecidableEq, Repr

namespace ReturnKind

def all : List ReturnKind := [.void, .int, .float, .func]

def words : ReturnKind → Nat
  | .void => 0
  | .int | .float => 1
  | .func => 2

/-- The values returned, bottom first. -/
def produced : ReturnKind → List ValueKind
  | .void => []
  | .int => [.int]
  | .float => [.float]
  | .func => [.int, .int]

/-- The number of a kind in a dynamic call. -/
def code : ReturnKind → Word
  | .void => 0
  | .int => 1
  | .float => 2
  | .func => 3

/-- The kind of a number; every other number means nothing is returned. -/
def ofCode (code : Word) : ReturnKind :=
  if code = 1 then .int
  else if code = 2 then .float
  else if code = 3 then .func
  else .void

def name : ReturnKind → String
  | .void => "Void"
  | .int => "Int"
  | .float => "Float"
  | .func => "Func"

end ReturnKind

/-- A method's place: its class and its number within the class. -/
structure MethodId where
  cls : Nat
  index : Nat
  deriving DecidableEq, Repr

/-- A method. -/
structure Method where
  id : MethodId := ⟨0, 0⟩
  name : String
  /-- Operand stack words taken as arguments. -/
  params : Nat := 0
  returns : ReturnKind := .int
  isVirtual : Bool := false
  code : Array Instruction
  deriving DecidableEq, Repr

/-- The frame words an instruction needs to be addressable: one past the last word it names. -/
def Instruction.localReach? (i : Instruction) : Option Nat :=
  let width? : Option Nat :=
    match i.op with
    | .loadIntVar | .storIntVar | .copyIntVar | .loadFloatVar | .storFloatVar | .copyFloatVar
    | .loadLoclIntVar | .storLoclIntVar | .copyLoclIntVar => some 1
    | .loadFuncVar | .storFuncVar => some 2
    | _ => none
  match width? with
  | some width =>
    if i.context = .frame ∧ 0 ≤ i.operand then some (i.operand.toInt.toNat + width) else none
  | none => none

def localWords (code : List Instruction) : Nat :=
  code.foldl (fun most i => max most (i.localReach?.getD 0)) 0

def Method.localWords (m : Method) : Nat := StackMachine.localWords m.code.toList

/-- A class: its layout and its methods. -/
structure ClassDef where
  id : Nat := 0
  name : String
  parent : Option Nat := none
  instanceWords : Nat := 0
  staticWords : Nat := 0
  methods : Array Method := #[]
  deriving DecidableEq, Repr

/-- Gives a method its place. -/
def Method.at (m : Method) (cls index : Nat) : Method := { m with id := ⟨cls, index⟩ }

/-- Gives a class its place, and its methods theirs. -/
def ClassDef.at (c : ClassDef) (id : Nat) : ClassDef :=
  { c with id, methods := c.methods.mapIdx fun index m => m.at id index }

/-- A program. -/
structure Program where
  classes : Array ClassDef := #[]
  entry : MethodId := ⟨0, 0⟩
  deriving DecidableEq, Repr

namespace Program

/-- A program of classes in order, each given its place. -/
def ofClasses (classes : List ClassDef) (entry : MethodId := ⟨0, 0⟩) : Program :=
  { classes := classes.toArray.mapIdx fun id c => c.at id, entry }

/-- The class of a number. -/
def class? (p : Program) (id : Nat) : Option ClassDef := p.classes[id]?

/-- The method at a place. -/
def method? (p : Program) (cls index : Nat) : Option Method :=
  (p.class? cls).bind fun c => c.methods[index]?

/-- The method two operands name; negative ones name nothing. -/
def callee? (p : Program) (cls index : Word) : Option Method :=
  match Word.toIndex? cls, Word.toIndex? index with
  | some cls, some index => p.method? cls index
  | _, _ => none

/-- The method execution starts with. -/
def entryMethod? (p : Program) : Option Method := p.method? p.entry.cls p.entry.index

/-- Every method, class by class. -/
def allMethods (p : Program) : List Method :=
  p.classes.toList.flatMap fun c => c.methods.toList

/-! ### The class hierarchy -/

/-- The class and its parents, nearest first, cut after `steps` parents. -/
def lineage (p : Program) : Nat → Nat → List Nat
  | 0, cls => [cls]
  | steps + 1, cls =>
    match (p.class? cls).bind ClassDef.parent with
    | some parent => cls :: p.lineage steps parent
    | none => [cls]

/-- Is `cls` the class `target` or one of its descendants? -/
def isA (p : Program) (cls target : Nat) : Bool :=
  (p.lineage p.classes.size cls).contains target

/-- The first method of a name in the nearest class that has one. -/
def findMethod? (p : Program) (cls : Nat) (name : String) : Option Method :=
  (p.lineage p.classes.size cls).findSome? fun id =>
    (p.class? id).bind fun c => c.methods.find? fun m => m.name == name

end Program

/-- A method as a record: its place, name, arguments, result and length. -/
def Method.debugText (m : Method) : String :=
  let number (n : Nat) := Numeral.signedDecimal n
  "Method \x7b id: " ++ number m.id.index ++ ", class_id: " ++ number m.id.cls ++ ", name: " ++
    Text.quoted m.name ++ ", params: " ++ number m.params ++ ", rtrn: " ++ m.returns.name ++
    ", instrs: " ++ number m.code.size ++ " \x7d"

/-- The name of a method with its class, as traces show it. -/
def Method.qualifiedName (m : Method) (p : Program) : String :=
  match p.class? m.id.cls with
  | some c => c.name ++ ":" ++ m.name
  | none => m.name

end StackMachine
