import StackMachine.Numeral

/-!
# Flat TOML documents

A reader for the part of TOML that settings are written in: one key with a string, an integer or a
truth value on each line, and comments.  Tables, arrays, fractions and dates are not part of it, and
a document that has one is refused as a whole, like one that is not TOML at all.
-/

namespace StackMachine.Toml

/-- What a key can be set to. -/
inductive Scalar where
  | text (value : String)
  | integer (value : Int)
  | boolean (value : Bool)
  deriving DecidableEq, Repr

/-! ### Lines -/

/-- A blank within a line. -/
def isBlank (c : Char) : Bool := c == ' ' || c == '\t'

/-- Drops blanks. -/
def skipBlanks (s : List Char) : List Char := s.dropWhile isBlank

/-- May a character stand in a comment or a string as it is? -/
def isPlain (c : Char) : Bool := c == '\t' || (0x20 ≤ c.toNat && c.toNat != 0x7F)

/-- Takes the end of a line, or of the document. -/
def lineEnd? : List Char → Option (List Char)
  | [] => some []
  | '\n' :: rest => some rest
  | '\r' :: '\n' :: rest => some rest
  | _ => none

/-- Takes the rest of a line that holds nothing but blanks and a comment. -/
def emptyLine? (s : List Char) : Option (List Char) :=
  match skipBlanks s with
  | '#' :: comment => lineEnd? (comment.dropWhile isPlain)
  | rest => lineEnd? rest

/-! ### Strings -/

/-- The character of hexadecimal digits, unless it is none. -/
def codePoint? (digits : List Char) : Option Char :=
  match Numeral.natural? 16 digits with
  | some n => if n.isValidChar then some (Char.ofNat n) else none
  | none => none

/-- The character after a backslash, with what follows. -/
def escape? : List Char → Option (Char × List Char)
  | 'b' :: rest => some ('\x08', rest)
  | 't' :: rest => some ('\t', rest)
  | 'n' :: rest => some ('\n', rest)
  | 'f' :: rest => some ('\x0c', rest)
  | 'r' :: rest => some ('\r', rest)
  | '"' :: rest => some ('"', rest)
  | '\\' :: rest => some ('\\', rest)
  | 'u' :: rest => if rest.length < 4 then none else (codePoint? (rest.take 4)).map (·, rest.drop 4)
  | 'U' :: rest => if rest.length < 8 then none else (codePoint? (rest.take 8)).map (·, rest.drop 8)
  | _ => none

/-- Reads up to the closing quote of a string with escapes, in at most `fuel` steps. -/
def basic? : Nat → List Char → Option (List Char × List Char)
  | 0, _ => none
  | _ + 1, [] => none
  | fuel + 1, c :: rest =>
    if c = '"' then some ([], rest)
    else if c = '\\' then
      match escape? rest with
      | some (e, rest) => (basic? fuel rest).map fun (text, rest) => (e :: text, rest)
      | none => none
    else if isPlain c then (basic? fuel rest).map fun (text, rest) => (c :: text, rest)
    else none

/-- Reads up to the closing quote of a string without escapes. -/
def literal? (s : List Char) : Option (List Char × List Char) :=
  let isInside (c : Char) := isPlain c && c != '\''
  match s.dropWhile isInside with
  | '\'' :: rest => some (s.takeWhile isInside, rest)
  | _ => none

/-- Drops the line break right after the opening quotes of a string of several lines. -/
def skipFirstBreak : List Char → List Char
  | '\n' :: rest => rest
  | '\r' :: '\n' :: rest => rest
  | s => s

/-- Drops blanks and line breaks. -/
def skipBreaks : List Char → List Char
  | '\n' :: rest => skipBreaks rest
  | '\r' :: '\n' :: rest => skipBreaks rest
  | c :: rest => if isBlank c then skipBreaks rest else c :: rest
  | [] => []

/-- Does a line end after blanks? -/
def breaksAfterBlanks (s : List Char) : Bool :=
  match skipBlanks s with
  | '\n' :: _ | '\r' :: '\n' :: _ => true
  | _ => false

/-- The quotes at the end of a string of several lines: three close it, and up to two more before
them belong to it. -/
def closing? (quote : Char) (s : List Char) : Option (List Char × List Char) :=
  let run := (s.takeWhile (· == quote)).length
  if run < 3 then none
  else
    let inside := min (run - 3) 2
    some (List.replicate inside quote, s.drop (inside + 3))

/-- Reads a string of several lines up to its closing quotes, in at most `fuel` steps.  A backslash
before a line break drops the break and the blanks after it. -/
def lines? (quote : Char) (escapes : Bool) : Nat → List Char → Option (List Char × List Char)
  | 0, _ => none
  | fuel + 1, s =>
    match closing? quote s with
    | some ended => some ended
    | none =>
      match s with
      | [] => none
      | '\n' :: rest =>
        (lines? quote escapes fuel rest).map fun (text, rest) => ('\n' :: text, rest)
      | '\r' :: '\n' :: rest =>
        (lines? quote escapes fuel rest).map fun (text, rest) => ('\n' :: text, rest)
      | c :: rest =>
        if c = '\\' ∧ escapes then
          if breaksAfterBlanks rest then lines? quote escapes fuel (skipBreaks rest)
          else
            match escape? rest with
            | some (e, rest) =>
              (lines? quote escapes fuel rest).map fun (text, rest) => (e :: text, rest)
            | none => none
        else if isPlain c then
          (lines? quote escapes fuel rest).map fun (text, rest) => (c :: text, rest)
        else none

/-- Reads a string of one line. -/
def line? : List Char → Option (List Char × List Char)
  | '"' :: rest => basic? (rest.length + 1) rest
  | '\'' :: rest => literal? rest
  | _ => none

/-- Reads a string of any form. -/
def string? : List Char → Option (List Char × List Char)
  | '"' :: '"' :: '"' :: rest => lines? '"' true (rest.length + 1) (skipFirstBreak rest)
  | '\'' :: '\'' :: '\'' :: rest => lines? '\'' false (rest.length + 1) (skipFirstBreak rest)
  | s => line? s

/-! ### Numbers -/

/-- Appends digits, which may be parted by single underscores. -/
def groupedDigits? (base : Nat) : Nat → List Char → Option Nat
  | n, [] => some n
  | n, '_' :: c :: rest =>
    (Numeral.digit? base c).bind fun d => groupedDigits? base (n * base + d) rest
  | n, c :: rest => (Numeral.digit? base c).bind fun d => groupedDigits? base (n * base + d) rest

/-- Digits in groups, the first of them no underscore. -/
def grouped? (base : Nat) : List Char → Option Nat
  | c :: rest => (Numeral.digit? base c).bind fun d => groupedDigits? base d rest
  | [] => none

/-- A decimal number without leading zeros. -/
def decimal? : List Char → Option Nat
  | ['0'] => some 0
  | '0' :: _ => none
  | digits => grouped? 10 digits

/-- An integer of 64 bits. -/
def integer? (token : List Char) : Option Int :=
  let value : Option Int :=
    match token with
    | '0' :: 'x' :: digits => (grouped? 16 digits).map Int.ofNat
    | '0' :: 'o' :: digits => (grouped? 8 digits).map Int.ofNat
    | '0' :: 'b' :: digits => (grouped? 2 digits).map Int.ofNat
    | '+' :: digits => (decimal? digits).map Int.ofNat
    | '-' :: digits => (decimal? digits).map fun n => -(n : Int)
    | digits => (decimal? digits).map Int.ofNat
  value.filter fun v => decide (-(2 ^ 63) ≤ v) && decide (v < 2 ^ 63)

/-! ### Documents -/

/-- A character of a key or a number written without quotes. -/
def isWordChar (c : Char) : Bool := c.isAlphanum || c == '_' || c == '-'

/-- Reads a key. -/
def key? (s : List Char) : Option (String × List Char) :=
  match line? s with
  | some (key, rest) => some (String.ofList key, rest)
  | none =>
    let word := s.takeWhile isWordChar
    if word.isEmpty then none else some (String.ofList word, s.dropWhile isWordChar)

/-- Reads a value. -/
def scalar? (s : List Char) : Option (Scalar × List Char) :=
  match string? s with
  | some (text, rest) => some (.text (String.ofList text), rest)
  | none =>
    let isTokenChar (c : Char) := isWordChar c || c == '+'
    let token := s.takeWhile isTokenChar
    let rest := s.dropWhile isTokenChar
    if token = "true".toList then some (.boolean true, rest)
    else if token = "false".toList then some (.boolean false, rest)
    else (integer? token).map (.integer ·, rest)

/-- Reads a line that sets a key. -/
def entry? (s : List Char) : Option ((String × Scalar) × List Char) := do
  let (key, s) ← key? (skipBlanks s)
  match skipBlanks s with
  | '=' :: s =>
    let (value, s) ← scalar? (skipBlanks s)
    return ((key, value), ← emptyLine? s)
  | _ => none

/-- Reads lines, at most `fuel` of them, after keys that are set already. -/
def entries? : Nat → List (String × Scalar) → List Char → Option (List (String × Scalar))
  | _, set, [] => some set
  | 0, _, _ => none
  | fuel + 1, set, s =>
    match emptyLine? s with
    | some rest => entries? fuel set rest
    | none =>
      match entry? s with
      | some ((key, value), rest) =>
        if (set.lookup key).isSome then none else entries? fuel (set ++ [(key, value)]) rest
      | none => none

/-- The keys that a document sets, in order.  Setting a key twice is an error. -/
def parse? (text : String) : Option (List (String × Scalar)) :=
  match text.toList with
  | '﻿' :: s => entries? (s.length + 1) [] s
  | s => entries? (s.length + 1) [] s

end StackMachine.Toml
