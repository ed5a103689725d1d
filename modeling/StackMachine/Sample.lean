import StackMachine.Bytecode.Builder

/-!
# Sample programs

Small programs, each for a different part of the machine, with what they leave on the operand stack
and what they print.
-/

namespace StackMachine

/-- How a sample ends. -/
inductive Expected where
  /-- With these words on the operand stack, bottom first. -/
  | stack (words : List Word)
  /-- With the fault of this status. -/
  | fault (status : Word)
  deriving DecidableEq, Repr

/-- A sample program. -/
structure Sample where
  name : String
  about : String
  expected : Expected
  /-- Everything it prints. -/
  output : String := ""
  program : Program
  deriving Repr

namespace Sample

open Build

/-- A program of one class with one method. -/
def mainOnly (code : List Instruction) (staticWords : Nat := 0) : Program :=
  .ofClasses
    [{ name := "Main", staticWords, methods := #[{ name := "main", code := code.toArray }] }]

/-- A double constant given as a fraction. -/
def fraction (num den : Nat) : Instruction := float (Double.ofQuotient false num den)

/-- Factorial by recursion. -/
def factorial : Sample where
  name := "factorial"
  about := "recursive 10! through native call sites"
  expected := .stack [3628800]
  program := .ofClasses
    [{ name := "Main"
       methods := #[
        { name := "main", code := #[int 10, int 0, nativeCall 0 1, leave] },
        { name := "fact"
          params := 1
          code := #[
            storeLocal 0, loadLocal 0, int 1, op .lesEqlInt, jumpIf 13 1,
            loadLocal 0, loadLocal 0, int 1, op .subInt, int 0, call 0 1, op .mulInt, leave,
            label 1, int 1, leave] }] }]

/-- Fibonacci numbers by iteration. -/
def fibonacci : Sample where
  name := "fibonacci"
  about := "iterative fib(30) over three locals"
  expected := .stack [832040]
  program := mainOnly
    [int 0, storeLocal 0, int 1, storeLocal 1, int 0, storeLocal 2,
      label 1, loadLocal 2, int 30, op .lesInt, jumpIf 22 0,
      loadLocal 0, loadLocal 1, op .addInt, loadLocal 1, storeLocal 0, storeLocal 1,
      loadLocal 2, int 1, op .addInt, storeLocal 2, jump 6,
      label 2, loadLocal 0, leave]

def arraySum : Sample where
  name := "array-sum"
  about := "fill an int array with squares and sum it"
  expected := .stack [285]
  program := mainOnly
    [int 10, with1 .newIntAry 1, storeLocal 0, int 0, storeLocal 1,
      label 1, loadLocal 1, int 10, op .lesInt, jumpIf 21 0,
      loadLocal 1, loadLocal 1, op .mulInt, loadLocal 1, loadLocal 0, with1 .storIntAryElm 1,
      loadLocal 1, int 1, op .addInt, storeLocal 1, jump 5,
      label 2, int 0, storeLocal 2, int 0, storeLocal 1,
      label 3, loadLocal 1, loadLocal 0, op .loadArySize, op .lesInt, jumpIf 43 0,
      loadLocal 2, loadLocal 1, loadLocal 0, with1 .loadIntAryElm 1, op .addInt, storeLocal 2,
      loadLocal 1, int 1, op .addInt, storeLocal 1, jump 26,
      label 4, loadLocal 2, leave]

/-- Sums a matrix. -/
def matrix : Sample where
  name := "matrix"
  about := "fill and sum a 3x4 two-dimensional array"
  expected := .stack [138]
  program := mainOnly
    [int 4, int 3, with1 .newIntAry 2, storeLocal 0, int 0, storeLocal 3, int 0, storeLocal 1,
      label 1, loadLocal 1, int 3, op .lesInt, jumpIf 47 0, int 0, storeLocal 2,
      label 2, loadLocal 2, int 4, op .lesInt, jumpIf 41 0,
      loadLocal 1, int 10, op .mulInt, loadLocal 2, op .addInt,
      loadLocal 2, loadLocal 1, loadLocal 0, with1 .storIntAryElm 2,
      loadLocal 3, loadLocal 2, loadLocal 1, loadLocal 0, with1 .loadIntAryElm 2, op .addInt,
      storeLocal 3,
      loadLocal 2, int 1, op .addInt, storeLocal 2, jump 15,
      label 3, loadLocal 1, int 1, op .addInt, storeLocal 1, jump 8,
      label 4, loadLocal 3, leave]

/-- Computes on doubles. -/
def floatMath : Sample where
  name := "float-math"
  about := "float arithmetic, a float loop and a library call"
  expected := .stack [16, 1]
  program := mainOnly
    [fraction 3 2, storeFloatLocal 0, fraction 9 4, storeFloatLocal 1,
      loadFloatLocal 0, loadFloatLocal 1, op .addFloat, fraction 4 1, op .mulFloat,
      fraction 1 1, op .subFloat, fraction 2 1, op .divFloat, storeFloatLocal 2,
      int 0, storeLocal 3,
      label 1, loadLocal 3, int 10, op .lesInt, jumpIf 30 0,
      loadFloatLocal 2, fraction 1 2, op .addFloat, storeFloatLocal 2,
      loadLocal 3, int 1, op .addInt, storeLocal 3, jump 16,
      label 2, loadFloatLocal 2, fraction 16 1, op .sqrtFloat, op .addFloat, storeFloatLocal 2,
      loadFloatLocal 2, op .f2i, loadFloatLocal 2, fraction 16 1, op .eqlFloat, leave]

/-- The area of a shape whose sides are two of its fields. -/
def area (a b : Word) : Method :=
  { name := "area"
    isVirtual := true
    code := #[op .loadInstMem, loadField a, op .loadInstMem, loadField b, op .mulInt, leave] }

/-- Calls a method that two classes override. -/
def virtualDispatch : Sample where
  name := "virtual"
  about := "virtual dispatch on two subclasses"
  expected := .stack [37]
  program := .ofClasses
    [{ name := "Main"
       methods := #[
        { name := "main"
          code := #[
            newObject 2, storeLocal 0, int 3, loadLocal 0, storeField 0,
            int 4, loadLocal 0, storeField 1,
            newObject 3, storeLocal 1, int 5, loadLocal 1, storeField 0,
            loadLocal 0, call 1 0, loadLocal 1, call 1 0, op .addInt, leave] }] },
      { name := "Shape"
        instanceWords := 2
        methods := #[{ name := "area", isVirtual := true, code := #[int 0, leave] }] },
      { name := "Rect", parent := some 1, instanceWords := 2, methods := #[area 0 1] },
      { name := "Square", parent := some 1, instanceWords := 2, methods := #[area 0 0] }]

/-- Converts numbers to text and back. -/
def strings : Sample where
  name := "strings"
  about := "number to string conversion and back"
  expected := .stack [12346]
  output := "12345\n2.500000\n"
  program := mainOnly
    ([int 32, with1 .newCharAry 1, storeLocal 0,
        int 12345, int 10, loadLocal 0, op .i2s, loadLocal 0] ++
      trap .stdOutString 2 ++ trap .stdOutNewline 1 ++
      [int 10, loadLocal 0, op .s2i, int 1, op .addInt,
        fraction 5 2, loadLocal 0, op .f2s, loadLocal 0] ++
      trap .stdOutString 2 ++ trap .stdOutNewline 1 ++ [leave])

def divZero : Sample where
  name := "div-zero"
  about := "integer division by a zero local"
  expected := .fault (-4)
  program := mainOnly
    [int 7, storeLocal 0, int 0, storeLocal 1, int 100, loadLocal 0, loadLocal 1, op .divInt, leave]

def nilField : Sample where
  name := "nil-field"
  about := "field read through a nil reference"
  expected := .fault (-1)
  program := mainOnly [int 0, storeLocal 0, loadLocal 0, loadField 1, leave]

/-- Reads past the end of an array. -/
def bounds : Sample where
  name := "bounds"
  about := "array read one past the end"
  expected := .fault (-3)
  program := mainOnly
    [int 5, with1 .newIntAry 1, storeLocal 0, int 5, loadLocal 0, with1 .loadIntAryElm 1, leave]

/-- A sample as a record of its name. -/
def debugText (s : Sample) : String := "Sample \x7b name: " ++ Text.quoted s.name ++ " \x7d"

def all : List Sample :=
  [factorial, fibonacci, arraySum, matrix, floatMath, virtualDispatch, strings, divZero, nilField,
    bounds]

def find? (name : String) : Option Sample := all.find? fun s => s.name == name

end Sample

end StackMachine
