import StackMachine.Word

/-!
# Array elements

The four kinds of array element and their widths.
-/

namespace StackMachine

/-- The kind of an array's elements. -/
inductive ElemKind where
  | byte | char | int | float
  deriving DecidableEq, Repr

namespace ElemKind

def all : List ElemKind := [.byte, .char, .int, .float]

/-- The number of a kind in an array's header. -/
def code : ElemKind → Nat
  | .byte => 0
  | .char => 1
  | .int => 2
  | .float => 3

/-- Logarithm of the width in bytes. -/
def shift : ElemKind → Nat
  | .byte => 0
  | .char => 2
  | .int | .float => 3

def width (kind : ElemKind) : Nat := 2 ^ kind.shift

/-- Byte and char arrays keep one more element as a terminator. -/
def reserve : ElemKind → Nat
  | .byte | .char => 1
  | .int | .float => 0

end ElemKind

/-- The widths of a memory access. -/
inductive Width where
  | byte
  /-- Four bytes, one code point. -/
  | char
  | word
  deriving DecidableEq, Repr

def Width.all : List Width := [.byte, .char, .word]

/-- The number of bytes accessed. -/
def Width.bytes : Width → Nat
  | .byte => 1
  | .char => 4
  | .word => 8

def ElemKind.access : ElemKind → Width
  | .byte => .byte
  | .char => .char
  | .int | .float => .word

end StackMachine
