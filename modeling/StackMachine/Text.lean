/-!
# Text

The character classes and code points the machine's text conversions rest on.
-/

namespace StackMachine.Text

/-- Characters of the Unicode property `White_Space`. -/
def isBlank (c : Char) : Bool :=
  let n := c.toNat
  (9 ≤ n && n ≤ 13) || n == 0x20 || n == 0x85 || n == 0xA0 || n == 0x1680 ||
    (0x2000 ≤ n && n ≤ 0x200A) || n == 0x2028 || n == 0x2029 || n == 0x202F || n == 0x205F ||
    n == 0x3000

/-- Drops blanks at both ends. -/
def trim (s : List Char) : List Char :=
  ((s.dropWhile isBlank).reverse.dropWhile isBlank).reverse

/-- The character that stands for an invalid code point. -/
def replacement : Char := Char.ofNat 0xFFFD

/-- The character of a code point; surrogates and numbers past the last plane are replaced. -/
def charOfCode (code : UInt32) : Char :=
  if h : code.isValidChar then ⟨code, h⟩ else replacement

/-! ### Quoted text -/

/-- Is a character written as its number: controls, and code points without a shape of their own? -/
def isShapeless (c : Char) : Bool :=
  let n := c.toNat
  n < 0x20 || (0x7F ≤ n && n < 0xA0) || n == 0xAD || (0x300 ≤ n && n ≤ 0x36F) ||
    (0x200B ≤ n && n ≤ 0x200F) || (0x2028 ≤ n && n ≤ 0x202E) || (0x2060 ≤ n && n ≤ 0x206F) ||
    (0xE000 ≤ n && n ≤ 0xF8FF) || n == 0xFEFF || (0xFFF0 ≤ n && n ≤ 0xFFFB) ||
    (0xFFFE ≤ n && n ≤ 0xFFFF) || 0xE0000 ≤ n || (isBlank c && n != 0x20)

def quotedChar (c : Char) : String :=
  match c with
  | '\x00' => "\\0"
  | '\t' => "\\t"
  | '\r' => "\\r"
  | '\n' => "\\n"
  | '"' => "\\\""
  | '\\' => "\\\\"
  | c =>
    if isShapeless c then "\\u\x7b" ++ String.ofList (Nat.toDigits 16 c.toNat) ++ "\x7d"
    else c.toString

/-- Text in quotes, with escapes for what would not be readable. -/
def quoted (s : String) : String := "\"" ++ String.join (s.toList.map quotedChar) ++ "\""

end StackMachine.Text
