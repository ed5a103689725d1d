import StackMachine.Numeral

/-!
# Listings

Machine code as text: sixteen bytes a line behind their offset, all in hexadecimal.
-/

namespace StackMachine

/-- Hexadecimal digits, padded with zeros to a width. -/
def hexPadded (width n : Nat) : String :=
  let digits := Nat.toDigits 16 n
  String.ofList (List.replicate (width - digits.length) '0' ++ digits)

def listingLine (offset : Nat) (bytes : List UInt8) : String :=
  bytes.foldl (fun line byte => line ++ " " ++ hexPadded 2 byte.toNat) (hexPadded 6 offset ++ ":")
    ++ "\n"

/-- Lines for the bytes from an offset on, with enough fuel for all of them. -/
def listingFrom : Nat → Nat → List UInt8 → String
  | 0, _, _ => ""
  | fuel + 1, offset, bytes =>
    if bytes.isEmpty then ""
    else listingLine offset (bytes.take 16) ++ listingFrom fuel (offset + 16) (bytes.drop 16)

def hexListing (code : List UInt8) : String := listingFrom code.length 0 code

/-- Bytes as hexadecimal digits without separators. -/
def hexBytes (bytes : List UInt8) : String :=
  bytes.foldl (fun text byte => text ++ hexPadded 2 byte.toNat) ""

/-- The bytes that pairs of hexadecimal digits stand for. -/
def bytesOfHex? : List Char → Option (List UInt8)
  | [] => some []
  | high :: low :: rest =>
    match Numeral.natural? 16 [high, low], bytesOfHex? rest with
    | some byte, some bytes => some (UInt8.ofNat byte :: bytes)
    | _, _ => none
  | _ => none

end StackMachine
