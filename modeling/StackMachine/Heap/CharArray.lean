import StackMachine.Heap.Array
import StackMachine.Text

/-!
# Text in char arrays

A char array holds one code point per element.  Text ends at the first zero element or at the end of
the array, whichever comes first.
-/

namespace StackMachine.Heap

/-- The code points of a char array up to its first zero. -/
def charCodes (h : Heap) (array : Word) : List Word :=
  (h.loadElements array .char 0 (h.arrayLength array).toInt.toNat).takeWhile (· ≠ 0)

/-- The text of a char array; invalid code points are replaced. -/
def readText (h : Heap) (array : Word) : String :=
  String.ofList ((h.charCodes array).map fun code => Text.charOfCode (Word.lowHalf code))

/-- Writes text into a char array.  It is cut to the element count, and followed by a zero if it is
shorter. -/
def writeText (h : Heap) (array : Word) (text : String) : Heap :=
  let size := (h.arrayLength array).toInt.toNat
  let codes := (text.toList.take size).map fun c => Word.ofNat c.toNat
  h.storeElements array .char 0 (if codes.length < size then codes ++ [0] else codes)

end StackMachine.Heap
