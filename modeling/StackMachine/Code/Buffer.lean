import StackMachine.Word

/-!
# Code buffers

Machine code under construction: bytes that are appended, and 32-bit fields that are read and
overwritten in place, little end first.
-/

namespace StackMachine

/-- The four bytes of a 32-bit number, little end first. -/
def bytes32 (v : UInt32) : List UInt8 :=
  [v.toUInt8, (v >>> 8).toUInt8, (v >>> 16).toUInt8, (v >>> 24).toUInt8]

/-- The eight bytes of a 64-bit number, little end first. -/
def bytes64 (v : UInt64) : List UInt8 := bytes32 v.toUInt32 ++ bytes32 (v >>> 32).toUInt32

/-- The 32-bit number of four bytes, little end first. -/
def word32 (a b c d : UInt8) : UInt32 :=
  a.toUInt32 ||| (b.toUInt32 <<< 8) ||| (c.toUInt32 <<< 16) ||| (d.toUInt32 <<< 24)

/-- A byte put above a number that ends below it is added to the number. -/
theorem toNat_or_shiftLeft {x : UInt32} {b : UInt8} {i : Nat} (hi : i ≤ 24) (hx : x.toNat < 2 ^ i) :
    (x ||| (b.toUInt32 <<< UInt32.ofNat i)).toNat = x.toNat + b.toNat * 2 ^ i := by
  have hb : b.toNat < 2 ^ 8 := b.toNat_lt
  have hp : (2 : Nat) ^ i ≤ 2 ^ 24 := Nat.pow_le_pow_right (by decide) hi
  have hfit : b.toNat * 2 ^ i < 2 ^ 32 :=
    calc
      b.toNat * 2 ^ i ≤ (2 ^ 8 - 1) * 2 ^ 24 := Nat.mul_le_mul (by omega) hp
      _ < 2 ^ 32 := by decide
  rw [UInt32.toNat_or, UInt32.toNat_shiftLeft, UInt8.toNat_toUInt32, UInt32.toNat_ofNat',
    show i % 2 ^ 32 % 32 = i by omega, Nat.or_comm,
    Nat.mod_eq_of_lt (by rwa [Nat.shiftLeft_eq]), ← Nat.shiftLeft_add_eq_or_of_lt hx,
    Nat.shiftLeft_eq, Nat.add_comm]

/-- The value of four bytes. -/
theorem toNat_word32 (a b c d : UInt8) :
    (word32 a b c d).toNat = a.toNat + b.toNat * 2 ^ 8 + c.toNat * 2 ^ 16 + d.toNat * 2 ^ 24 := by
  have ha := a.toNat_lt
  have hb := b.toNat_lt
  have hc := c.toNat_lt
  have h2 : (a.toUInt32 ||| b.toUInt32 <<< 8).toNat = a.toNat + b.toNat * 2 ^ 8 :=
    toNat_or_shiftLeft (x := a.toUInt32) (i := 8) (by decide) (by simpa using ha)
  have h3 : (a.toUInt32 ||| b.toUInt32 <<< 8 ||| c.toUInt32 <<< 16).toNat = _ :=
    toNat_or_shiftLeft (i := 16) (by decide) (by omega)
  have h4 : (word32 a b c d).toNat = _ := toNat_or_shiftLeft (i := 24) (by decide) (by omega)
  omega

/-- The bytes of a number read back as the number. -/
theorem word32_bytes32 (v : UInt32) :
    word32 v.toUInt8 (v >>> 8).toUInt8 (v >>> 16).toUInt8 (v >>> 24).toUInt8 = v := by
  apply UInt32.toNat_inj.1
  rw [toNat_word32]
  have := v.toNat_lt
  simp [Nat.shiftRight_eq_div_pow]
  omega

/-- Machine code under construction. -/
structure CodeBuffer where
  bytes : Array UInt8 := #[]
  deriving DecidableEq, Repr

namespace CodeBuffer

/-- The offset the next byte gets. -/
def offset (b : CodeBuffer) : Nat := b.bytes.size

/-- Appends bytes. -/
def emit (b : CodeBuffer) (bytes : List UInt8) : CodeBuffer := ⟨b.bytes ++ bytes⟩

/-- Reads the 32-bit field at an offset, if it lies inside the code. -/
def read32? (b : CodeBuffer) (at_ : Nat) : Option UInt32 :=
  match b.bytes[at_]?, b.bytes[at_ + 1]?, b.bytes[at_ + 2]?, b.bytes[at_ + 3]? with
  | some x, some y, some z, some w => some (word32 x y z w)
  | _, _, _, _ => none

/-- Writes bytes over existing ones. -/
def overwrite (bytes : Array UInt8) : Nat → List UInt8 → Array UInt8
  | _, [] => bytes
  | i, byte :: rest => overwrite (bytes.setIfInBounds i byte) (i + 1) rest

/-- Overwrites the 32-bit field at an offset, if it lies inside the code. -/
def patch32? (b : CodeBuffer) (at_ : Nat) (value : UInt32) : Option CodeBuffer :=
  if at_ + 4 ≤ b.bytes.size then some ⟨overwrite b.bytes at_ (bytes32 value)⟩ else none

@[simp]
theorem offset_emit (b : CodeBuffer) (bytes : List UInt8) :
    (b.emit bytes).offset = b.offset + bytes.length := by
  simp [emit, offset, ← Array.length_toList]

@[simp]
theorem size_overwrite (bytes : Array UInt8) (i : Nat) (new : List UInt8) :
    (overwrite bytes i new).size = bytes.size := by
  induction new generalizing bytes i with
  | nil => rfl
  | cons byte rest ih => simp [overwrite, ih]

/-- A field can be patched exactly where it can be read. -/
theorem isSome_patch32? (b : CodeBuffer) (at_ : Nat) (value : UInt32) :
    (b.patch32? at_ value).isSome = (b.read32? at_).isSome := by
  unfold patch32? read32?
  by_cases h : at_ + 4 ≤ b.bytes.size
  · have h0 : at_ < b.bytes.size := by omega
    have h1 : at_ + 1 < b.bytes.size := by omega
    have h2 : at_ + 2 < b.bytes.size := by omega
    have h3 : at_ + 3 < b.bytes.size := by omega
    simp [h, h0, h1, h2, h3]
  · have h3 : b.bytes[at_ + 3]? = none := Array.getElem?_eq_none (by omega)
    simp only [h, if_false, h3]
    split <;> simp_all

/-- Patching does not move code. -/
theorem offset_of_patch32? {b patched : CodeBuffer} {at_ : Nat} {value : UInt32}
    (h : b.patch32? at_ value = some patched) : patched.offset = b.offset := by
  unfold patch32? at h
  split at h
  · cases h
    simp [offset]
  · cases h

/-- A patched field reads back. -/
theorem read32?_of_patch32? {b patched : CodeBuffer} {at_ : Nat} {value : UInt32}
    (h : b.patch32? at_ value = some patched) : patched.read32? at_ = some value := by
  unfold patch32? at h
  split at h
  · rename_i fits
    cases h
    have h0 : at_ < b.bytes.size := by omega
    have h1 : at_ + 1 < b.bytes.size := by omega
    have h2 : at_ + 2 < b.bytes.size := by omega
    have h3 : at_ + 3 < b.bytes.size := by omega
    simp [read32?, overwrite, bytes32, Nat.add_assoc, h0, h1, h2, h3, word32_bytes32]
  · cases h

end CodeBuffer

end StackMachine
