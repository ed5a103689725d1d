import StackMachine.Code.RegisterPool
import StackMachine.Native.Operation

/-!
# Backends

A backend supplies the registers of a target and lowers each operation to pieces of machine code.
An assembly collects the pieces, remembers where the branches are, and patches them at the end.
-/

namespace StackMachine.Native

/-- A piece of machine code; a branch says at which byte of the piece its field is, how it is
encoded and where it goes. -/
structure Piece where
  bytes : List UInt8
  branch : Option (Nat × SiteKind × JumpTarget) := none
  deriving DecidableEq, Repr

/-- The instructions of a target: their bytes, and where in a branch its field is and how it is
encoded. -/
class Encoding (ι : Type) where
  bytes : ι → List UInt8
  field : ι → Nat × SiteKind

/-- An instruction, with where it goes if it is a branch that is still open. -/
structure Step (ι : Type) where
  instr : ι
  target : Option JumpTarget := none
  deriving DecidableEq, Repr

namespace Step

variable {ι : Type}

/-- Instructions without open branches. -/
def plain (code : List ι) : List (Step ι) := code.map fun i => ⟨i, none⟩

/-- The bytes of a step. -/
def piece [encoding : Encoding ι] (s : Step ι) : Piece where
  bytes := encoding.bytes s.instr
  branch := s.target.map fun target => ((encoding.field s.instr).1, (encoding.field s.instr).2,
    target)

end Step

/-- A target: its registers, and how operations become machine code.  Lowering may add to the
literals `lits` of the method. -/
structure Backend (γ φ lits : Type) where
  ints : RegisterPool γ
  floats : RegisterPool φ
  /-- The literals of a method without any. -/
  noLiterals : lits
  lower : lits → Operation γ φ → Except CompileError (List Piece × lits)
  /-- The literal pool in memory. -/
  literalWords : lits → List UInt64
  /-- Where in the code of a stack reservation its word count stands. -/
  reserveField : Nat
  /-- Changes the word count of a reservation. -/
  patchReserve : CodeBuffer → Nat → UInt32 → CodeBuffer
  /-- The most slots a frame can have. -/
  maxSlots : Option Nat := none

/-- Machine code under construction with its open branches and its literals. -/
structure Assembly (lits : Type) where
  code : CodeBuffer := {}
  fixups : FixupTable := {}
  literals : lits
  deriving Repr

namespace Assembly

variable {γ φ lits : Type}

/-- Appends a piece and records its branch. -/
def addPiece (a : Assembly lits) (piece : Piece) : Assembly lits :=
  let fixups :=
    match piece.branch with
    | some (at_, kind, target) => a.fixups.add ⟨a.code.offset + at_, kind⟩ target
    | none => a.fixups
  { a with code := a.code.emit piece.bytes, fixups }

/-- Appends the code of an operation. -/
def emit (backend : Backend γ φ lits) (a : Assembly lits) (op : Operation γ φ) :
    Except CompileError (Assembly lits) :=
  match op with
  | .bind target => .ok { a with fixups := a.fixups.bind target a.code.offset }
  | op => do
    let (pieces, literals) ← backend.lower a.literals op
    return pieces.foldl addPiece { a with literals }

/-- Appends the code of operations in a row. -/
def emitAll (backend : Backend γ φ lits) (a : Assembly lits) (ops : List (Operation γ φ)) :
    Except CompileError (Assembly lits) :=
  ops.foldlM (emit backend) a

end Assembly

end StackMachine.Native
