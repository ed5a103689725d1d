import StackMachine.Double.Basic

/-!
# Doubles as text

Two ways to write a double in decimal, both without an exponent.  `Double.shortest` uses the fewest
digits that read back as the same double, and of those the nearest, the larger one of two equally
near.  `Double.fixed` writes a given number of places of the exact value, a half going to the even
neighbour.
-/

namespace StackMachine.Double

/-! ### Digits -/

def decimalDigits (n : Nat) : List Char := Nat.toDigits 10 n

/-- The least `j ≥ start` with `den ≤ num * 10 ^ j`, looked for within `fuel` steps. -/
def leadingZeros (num den : Nat) : Nat → Nat → Nat
  | 0, start => start
  | fuel + 1, start =>
    if den ≤ num * 10 ^ start then start else leadingZeros num den fuel (start + 1)

/-- The position of the decimal point of `num / den`: the quotient lies in
`[10 ^ (point - 1), 10 ^ point)`.  No positive double needs more than 330 steps. -/
def pointOf (num den : Nat) : Int :=
  if den ≤ num then ((decimalDigits (num / den)).length : Int)
  else 1 - (leadingZeros num den 330 1 : Int)

/-- A decimal `0.digits * 10 ^ point`. -/
structure Digits where
  digits : List Char
  point : Int
  deriving DecidableEq, Repr

/-- Writes a decimal positionally. -/
def Digits.positional (d : Digits) : List Char :=
  if d.point ≤ 0 then '0' :: '.' :: (List.replicate (-d.point).toNat '0' ++ d.digits)
  else if (d.digits.length : Int) ≤ d.point then
    d.digits ++ List.replicate (d.point.toNat - d.digits.length) '0'
  else d.digits.take d.point.toNat ++ '.' :: d.digits.drop d.point.toNat

/-! ### The fewest digits -/

/-- The reals that round to one double, as bounds over a common denominator. -/
structure Rounding where
  value : Nat
  low : Nat
  high : Nat
  den : Nat
  /-- The ends belong to the interval when the mantissa is even. -/
  closed : Bool
  deriving Repr

/-- The rounding interval of `mantissa * 2 ^ exponent`.  Below a power of two the next double is
half as far away. -/
def Rounding.of (mantissa : Nat) (exponent : Int) : Rounding :=
  let narrow := decide (mantissa = 2 ^ 52) && decide (-1074 < exponent)
  let scale := if 0 ≤ exponent then 2 ^ exponent.toNat else 1
  let den := if 0 ≤ exponent then 1 else 2 ^ (-exponent).toNat
  { value := 4 * mantissa * scale
    low := (4 * mantissa - (if narrow then 1 else 2)) * scale
    high := (4 * mantissa + 2) * scale
    den := 4 * den
    closed := mantissa % 2 = 0 }

def Rounding.holds (r : Rounding) (num den : Nat) : Bool :=
  if r.closed then decide (r.low * den ≤ num * r.den) && decide (num * r.den ≤ r.high * den)
  else decide (r.low * den < num * r.den) && decide (num * r.den < r.high * den)

/-- The decimal of `count` digits that reads back, if one of the two neighbours of the value on that
grid does.  Of two that do the nearer is taken, and the larger one of two equally near. -/
def Rounding.withDigits? (r : Rounding) (point : Int) (count : Nat) : Option Nat :=
  let step := point - count
  let unitNum := if 0 ≤ step then 10 ^ step.toNat else 1
  let unitDen := if 0 ≤ step then 1 else 10 ^ (-step).toNat
  let below := r.value * unitDen / (r.den * unitNum)
  let rest := r.value * unitDen % (r.den * unitNum)
  let down := r.holds (below * unitNum) unitDen
  let up := r.holds ((below + 1) * unitNum) unitDen
  match down, up with
  | true, true => some (if r.den * unitNum ≤ 2 * rest then below + 1 else below)
  | true, false => some below
  | false, true => some (below + 1)
  | false, false => none

/-- Tries `count`, `count + 1`, … digits. -/
def Rounding.search (r : Rounding) (point : Int) : Nat → Nat → Nat × Nat
  | 0, count => ((r.withDigits? point count).getD 0, count)
  | fuel + 1, count =>
    match r.withDigits? point count with
    | some n => (n, count)
    | none => r.search point fuel (count + 1)

/-- The fewest digits of a positive `mantissa * 2 ^ exponent`; seventeen always suffice. -/
def shortestDigits (mantissa : Nat) (exponent : Int) : Digits :=
  let r := Rounding.of mantissa exponent
  let point := pointOf r.value r.den
  let (n, count) := r.search point 17 1
  let text := decimalDigits n
  let point := point + ((text.length : Int) - count)
  { digits := (text.reverse.dropWhile (· = '0')).reverse, point }

/-- Puts the sign in front. -/
def signed (negative : Bool) (text : List Char) : String :=
  String.ofList (if negative then '-' :: text else text)

/-- The fewest digits that read back, without an exponent; whole numbers have no point. -/
def shortest (d : Double) : String :=
  match d.parts with
  | .nan => "NaN"
  | .infinite negative => signed negative "inf".toList
  | .finite negative mantissa exponent =>
    if mantissa = 0 then signed negative ['0']
    else signed negative (shortestDigits mantissa exponent).positional

/-! ### A fixed number of places -/

def placesText (n places : Nat) : List Char :=
  let text := decimalDigits n
  let padded := List.replicate (places + 1 - text.length) '0' ++ text
  if places = 0 then padded
  else
    padded.take (padded.length - places) ++ '.' :: padded.drop (padded.length - places)

/-- Writes the exact value with the given number of places, a half going to the even neighbour. -/
def fixed (places : Nat) (d : Double) : String :=
  match d.parts with
  | .nan => "NaN"
  | .infinite negative => signed negative "inf".toList
  | .finite negative mantissa exponent =>
    let n :=
      if 0 ≤ exponent then mantissa * 2 ^ exponent.toNat * 10 ^ places
      else nearestEven (mantissa * 10 ^ places) (2 ^ (-exponent).toNat)
    signed negative (placesText n places)

end StackMachine.Double
