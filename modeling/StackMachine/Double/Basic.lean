import StackMachine.Word

/-!
# Doubles

A double is kept as its 64 bits.  Moving one never changes it; only arithmetic goes through the
hardware format.  `Double.parts` reads the bits as an exact dyadic number, on which truncation,
remainder and the text forms are defined, and `Double.ofQuotient` rounds a quotient of natural
numbers to the nearest double.
-/

namespace StackMachine

/-- An IEEE-754 double, by its bits. -/
structure Double where
  bits : UInt64
  deriving DecidableEq, Repr

/-- The four float operations. -/
inductive FloatOp where
  | add | sub | mul | div
  deriving DecidableEq, Repr

/-- Every float operation. -/
def FloatOp.all : List FloatOp := [.add, .sub, .mul, .div]

namespace Double

instance : Inhabited Double := ⟨⟨0⟩⟩

/-- Positive zero. -/
def zero : Double := ⟨0⟩

/-- The quiet NaN every undefined result is given as. -/
def nan : Double := ⟨0x7FF8000000000000⟩

/-- The infinity of a sign. -/
def infinity (negative : Bool) : Double :=
  ⟨if negative then 0xFFF0000000000000 else 0x7FF0000000000000⟩

def signedZero (negative : Bool) : Double := ⟨if negative then 0x8000000000000000 else 0⟩

/-- A word read as the bits of a double. -/
def ofWord (w : Word) : Double := ⟨w.toUInt64⟩

def toWord (d : Double) : Word := d.bits.toInt64

/-- The hardware double of the bits. -/
def toFloat (d : Double) : Float := Float.ofBits d.bits

/-- The bits of a hardware double. -/
def ofFloat (f : Float) : Double := ⟨f.toBits⟩

/-- The double nearest to a signed integer. -/
def ofInt64 (w : Word) : Double := ofFloat w.toFloat

/-- What the bits of a double stand for: a finite double is `± mantissa * 2 ^ exponent`. -/
inductive Parts where
  | nan
  | infinite (negative : Bool)
  | finite (negative : Bool) (mantissa : Nat) (exponent : Int)
  deriving DecidableEq, Repr

/-- Reads the sign bit. -/
def isNegative (d : Double) : Bool := d.bits >>> 63 == 1

/-- Splits the bits into sign, exponent and mantissa. -/
def parts (d : Double) : Parts :=
  let field := (d.bits >>> 52).toNat % 2048
  let fraction := d.bits.toNat % 2 ^ 52
  if field = 2047 then
    if fraction = 0 then .infinite d.isNegative else .nan
  else if field = 0 then
    .finite d.isNegative fraction (-1074)
  else
    .finite d.isNegative (fraction + 2 ^ 52) (field - 1075)

/-- Is this not a number? -/
def isNaN (d : Double) : Bool := d.parts == .nan

/-- Is this one of the two zeros? -/
def isZero (d : Double) : Bool := d.bits &&& 0x7FFFFFFFFFFFFFFF == 0

def wholePart (mantissa : Nat) (exponent : Int) : Nat :=
  if 0 ≤ exponent then mantissa * 2 ^ exponent.toNat else mantissa / 2 ^ (-exponent).toNat

/-- Truncation toward zero.  NaN and everything outside the range of a word give the least word. -/
def truncate (d : Double) : Word :=
  match d.parts with
  | .finite negative mantissa exponent =>
    let whole : Int := wholePart mantissa exponent
    let value := if negative then -whole else whole
    if -(2 ^ 63) ≤ value ∧ value < 2 ^ 63 then Int64.ofInt value else Int64.minValue
  | _ => Int64.minValue

/-- The value of a float operation. -/
def eval : FloatOp → Double → Double → Double
  | .add, a, b => ofFloat (a.toFloat + b.toFloat)
  | .sub, a, b => ofFloat (a.toFloat - b.toFloat)
  | .mul, a, b => ofFloat (a.toFloat * b.toFloat)
  | .div, a, b => ofFloat (a.toFloat / b.toFloat)

/-- The relation on doubles: with a NaN on either side only `ne` holds, and the two zeros are
equal. -/
def compare (c : Comparison) (a b : Double) : Bool :=
  let x := a.toFloat
  let y := b.toFloat
  match c with
  | .eq => x == y
  | .ne => x != y
  | .lt => decide (x < y)
  | .gt => decide (y < x)
  | .le => decide (x ≤ y)
  | .ge => decide (y ≤ x)

/-! ### Rounding a quotient -/

/-- The natural number nearest to `num / den`, the even one of two equally near. -/
def nearestEven (num den : Nat) : Nat :=
  let whole := num / den
  let twice := 2 * (num % den)
  if twice < den then whole
  else if den < twice then whole + 1
  else whole + whole % 2

/-- The quotient `num / (den * 2 ^ exponent)` rounded to the nearest natural number. -/
def scaledNearest (num den : Nat) (exponent : Int) : Nat :=
  if 0 ≤ exponent then nearestEven num (den * 2 ^ exponent.toNat)
  else nearestEven (num * 2 ^ (-exponent).toNat) den

def powerLe (k : Int) (num den : Nat) : Bool :=
  if 0 ≤ k then decide (den * 2 ^ k.toNat ≤ num) else decide (den ≤ num * 2 ^ (-k).toNat)

/-- Puts a rounded mantissa and its exponent into bits; past the largest exponent is infinity. -/
def pack (negative : Bool) (mantissa : Nat) (exponent : Int) : Double :=
  let (mantissa, exponent) :=
    if mantissa = 2 ^ 53 then (2 ^ 52, exponent + 1) else (mantissa, exponent)
  if mantissa < 2 ^ 52 then
    ⟨UInt64.ofNat mantissa ||| (signedZero negative).bits⟩
  else if 971 < exponent then infinity negative
  else
    ⟨UInt64.ofNat ((exponent + 1075).toNat * 2 ^ 52 + (mantissa - 2 ^ 52)) |||
      (signedZero negative).bits⟩

/-- The double nearest to `± num / den`, the even mantissa of two equally near. -/
def ofQuotient (negative : Bool) (num den : Nat) : Double :=
  if num = 0 ∨ den = 0 then signedZero negative
  else
    let estimate : Int := (Nat.log2 num : Int) - (Nat.log2 den : Int)
    let magnitude := if powerLe estimate num den then estimate else estimate - 1
    let exponent := max (magnitude - 52) (-1074)
    pack negative (scaledNearest num den exponent) exponent

/-- The remainder of a division that rounds toward zero; it is exact and takes the sign of the
dividend. -/
def remainder (a b : Double) : Double :=
  match a.parts, b.parts with
  | .finite negative m e, .finite _ n f =>
    if n = 0 then nan
    else
      let low := min e f
      let rest := (m * 2 ^ (e - low).toNat) % (n * 2 ^ (f - low).toNat)
      if 0 ≤ low then ofQuotient negative (rest * 2 ^ low.toNat) 1
      else ofQuotient negative rest (2 ^ (-low).toNat)
  | .finite _ _ _, .infinite _ => a
  | _, _ => nan

end Double

end StackMachine
