import StackMachine.Word
import StackMachine.Double.Basic
import StackMachine.Text

/-!
# Numerals

Integers and doubles read from text, and integers written in a base.  Bases 2, 8 and 16 write the
two's complement bits, so a negative word is written as a large number there; every other base
writes signed decimal.
-/

namespace StackMachine.Numeral

open Text

/-! ### Integers -/

def signedDecimal (n : Int) : String :=
  if n < 0 then String.ofList ('-' :: Nat.toDigits 10 n.natAbs)
  else String.ofList (Nat.toDigits 10 n.natAbs)

def write (base value : Word) : String :=
  if base = 2 then String.ofList (Nat.toDigits 2 (Word.toUnsigned value))
  else if base = 8 then String.ofList (Nat.toDigits 8 (Word.toUnsigned value))
  else if base = 16 then String.ofList ('0' :: 'x' :: Nat.toDigits 16 (Word.toUnsigned value))
  else signedDecimal value.toInt

/-- The value of a character as a digit of a base up to 36, in either case. -/
def digit? (base : Nat) (c : Char) : Option Nat :=
  let n := c.toNat
  let value :=
    if 48 ≤ n ∧ n ≤ 57 then some (n - 48)
    else if 97 ≤ n ∧ n ≤ 122 then some (n - 87)
    else if 65 ≤ n ∧ n ≤ 90 then some (n - 55)
    else none
  value.filter (· < base)

/-- Appends digits to a number; any other character spoils it. -/
def foldDigits? (base : Nat) : Nat → List Char → Option Nat
  | n, [] => some n
  | n, c :: rest =>
    match digit? base c with
    | some d => foldDigits? base (n * base + d) rest
    | none => none

/-- An unsigned numeral: at least one digit and nothing else. -/
def natural? (base : Nat) (s : List Char) : Option Nat :=
  if s.isEmpty then none else foldDigits? base 0 s

/-- A signed numeral of a base within the range of a word. -/
def integer? (base : Nat) (s : List Char) : Option Word :=
  let value : Option Int :=
    match s with
    | '-' :: rest => (natural? base rest).map fun n => -(n : Int)
    | '+' :: rest => (natural? base rest).map Int.ofNat
    | _ => (natural? base s).map Int.ofNat
  match value with
  | some v => if -(2 ^ 63) ≤ v ∧ v < 2 ^ 63 then some (Int64.ofInt v) else none
  | none => none

/-- Reads the digits after the marks `0b`, `0o` and `0x`, which win over the base asked for. -/
def markedBase? : List Char → Option (Nat × List Char)
  | '0' :: mark :: c :: rest =>
    if mark = 'b' ∨ mark = 'B' then some (2, c :: rest)
    else if mark = 'o' ∨ mark = 'O' then some (8, c :: rest)
    else if mark = 'x' ∨ mark = 'X' then some (16, c :: rest)
    else none
  | _ => none

/-- Reads an integer between blanks.  A base outside 2 to 36 means 10, and malformed text or a value
out of range reads as 0. -/
def read (base : Word) (text : String) : Word :=
  let s := trim text.toList
  let asked := if 2 ≤ base ∧ base ≤ 36 then base.toInt.toNat else 10
  match markedBase? s with
  | some (marked, digits) => (integer? marked digits).getD 0
  | none => (integer? asked s).getD 0

/-! ### Doubles -/

/-- Is this one of the decimal digits? -/
def isDecimal (c : Char) : Bool := (digit? 10 c).isSome

/-- An exponent mark with its digits at the end of a numeral, `0` where there is none. -/
def exponent? : List Char → Option Int
  | [] => some 0
  | mark :: rest =>
    if mark = 'e' ∨ mark = 'E' then
      match rest with
      | '-' :: ds => (natural? 10 ds).map fun n => -(n : Int)
      | '+' :: ds => (natural? 10 ds).map Int.ofNat
      | ds => (natural? 10 ds).map Int.ofNat
    else none

/-- The double nearest to `± n * 10 ^ scale`.  Scales at which the answer is already infinite or
zero are cut, so that no large power is formed. -/
def scaled (negative : Bool) (n : Nat) (scale : Int) : Double :=
  let size := scale + ((Nat.toDigits 10 n).length : Int)
  if n = 0 ∨ size < -400 then Double.signedZero negative
  else if 400 < size then Double.infinity negative
  else if 0 ≤ scale then Double.ofQuotient negative (n * 10 ^ scale.toNat) 1
  else Double.ofQuotient negative n (10 ^ (-scale).toNat)

/-- An unsigned decimal: digits with an optional point, at least one digit, an optional exponent. -/
def decimal? (negative : Bool) (s : List Char) : Option Double :=
  let whole := s.takeWhile isDecimal
  let afterWhole := s.dropWhile isDecimal
  let (fraction, rest) :=
    match afterWhole with
    | '.' :: tail => (tail.takeWhile isDecimal, tail.dropWhile isDecimal)
    | _ => ([], afterWhole)
  match natural? 10 (whole ++ fraction), exponent? rest with
  | some n, some e => some (scaled negative n (e - fraction.length))
  | _, _ => none

/-- The words for infinity and NaN, in any case. -/
def named? (negative : Bool) (s : List Char) : Option Double :=
  let word := String.ofList (s.map Char.toLower)
  if word = "inf" ∨ word = "infinity" then some (Double.infinity negative)
  else if word = "nan" then
    some ⟨Double.nan.bits ||| (Double.signedZero negative).bits⟩
  else none

def double? (s : List Char) : Option Double :=
  match s with
  | '-' :: rest => (decimal? true rest).orElse fun _ => named? true rest
  | '+' :: rest => (decimal? false rest).orElse fun _ => named? false rest
  | _ => (decimal? false s).orElse fun _ => named? false s

/-- Reads a double between blanks; malformed text reads as zero. -/
def readDouble (text : String) : Double := (double? (trim text.toList)).getD Double.zero

end StackMachine.Numeral
