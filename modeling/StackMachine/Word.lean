/-!
# Words

The machine computes on 64-bit words.  An integer is a word read in two's complement; a double is a
word read as its IEEE-754 bit pattern; a heap handle is a word as well.  Integer arithmetic wraps.
-/

namespace StackMachine

/-- Powers are those of the core library, whatever algebra a module knows. -/
@[default_instance 10001]
instance (priority := 2000) instPowCore {α : Type} [NatPow α] : Pow α Nat := instPowNat

/-- Sums of natural numbers begin with the numeral. -/
instance (priority := 2000) instZeroCore : Zero Nat := ⟨0⟩

/-- A 64-bit machine word, read as a signed integer. -/
abbrev Word := Int64

namespace Word

/-- The word of a truth value: 1 for true, 0 for false. -/
def ofBool (b : Bool) : Word := if b then 1 else 0

def toUnsigned (w : Word) : Nat := w.toUInt64.toNat

/-- No row of so many words can be had: its bytes would be more than a signed word counts. -/
def rowLimit : Nat := 2 ^ 60

/-- A word used as an index: negative words index nothing. -/
def toIndex? (w : Word) : Option Nat := if w < 0 then none else some w.toInt.toNat

/-- The word of a natural number, modulo `2 ^ 64`. -/
def ofNat (n : Nat) : Word := Int64.ofNat n

/-- A number below the modulus is read back. -/
theorem toUnsigned_ofNat {n : Nat} (fits : n < 2 ^ 64) : toUnsigned (ofNat n) = n :=
  UInt64.toNat_ofNat'.trans (Nat.mod_eq_of_lt fits)

/-- Does the value fit a sign-extended 32-bit immediate? -/
def fitsInt32 (w : Word) : Bool := decide (-2147483648 ≤ w) && decide (w ≤ 2147483647)

def lowByte (w : Word) : UInt8 := w.toUInt64.toUInt8

def lowHalf (w : Word) : UInt32 := w.toUInt64.toUInt32

end Word

/-- Integer operations that never fail. -/
inductive IntOp where
  | add | sub | mul | and | or | xor | shl | shr
  deriving DecidableEq, Repr

/-- The value of an integer operation.  Sums and products wrap; a shift counts modulo 64 and a right
shift keeps the sign. -/
def IntOp.eval : IntOp → Word → Word → Word
  | .add, a, b => a + b
  | .sub, a, b => a - b
  | .mul, a, b => a * b
  | .and, a, b => a &&& b
  | .or, a, b => a ||| b
  | .xor, a, b => a ^^^ b
  | .shl, a, b => a <<< b
  | .shr, a, b => a >>> b

/-- Every integer operation. -/
def IntOp.all : List IntOp := [.add, .sub, .mul, .and, .or, .xor, .shl, .shr]

/-- Division or remainder by a divisor that is not zero, rounding toward zero; the least word
divided by -1 wraps to itself with remainder 0. -/
def Word.divide (remainder : Bool) (a b : Word) : Word := if remainder then a % b else a / b

/-- The six order relations. -/
inductive Comparison where
  | eq | ne | lt | gt | le | ge
  deriving DecidableEq, Repr

namespace Comparison

/-- Every relation. -/
def all : List Comparison := [.eq, .ne, .lt, .gt, .le, .ge]

/-- The relation that holds exactly when this one does not. -/
def invert : Comparison → Comparison
  | .eq => .ne
  | .ne => .eq
  | .lt => .ge
  | .ge => .lt
  | .gt => .le
  | .le => .gt

/-- The same relation with its operands exchanged. -/
def swap : Comparison → Comparison
  | .lt => .gt
  | .gt => .lt
  | .le => .ge
  | .ge => .le
  | .eq => .eq
  | .ne => .ne

/-- The relation on signed words. -/
def evalWord : Comparison → Word → Word → Bool
  | .eq, a, b => a == b
  | .ne, a, b => a != b
  | .lt, a, b => decide (a < b)
  | .gt, a, b => decide (b < a)
  | .le, a, b => decide (a ≤ b)
  | .ge, a, b => decide (b ≤ a)

@[simp]
theorem invert_invert (c : Comparison) : c.invert.invert = c := by cases c <;> rfl

@[simp]
theorem swap_swap (c : Comparison) : c.swap.swap = c := by cases c <;> rfl

/-- The opposite relation holds exactly when the relation does not. -/
theorem evalWord_invert (c : Comparison) (a b : Word) :
    c.invert.evalWord a b = !c.evalWord a b := by
  cases c <;> simp [invert, evalWord, bne, ← decide_not, Int64.not_lt, Int64.not_le]

/-- Exchanging the relation undoes an exchange of the operands. -/
theorem evalWord_swap (c : Comparison) (a b : Word) : c.swap.evalWord a b = c.evalWord b a := by
  cases c <;> simp [swap, evalWord, bne_comm, BEq.comm]

end Comparison

end StackMachine
