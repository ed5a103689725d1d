import Mathlib.Data.Nat.Digits.Defs
import Mathlib.Data.Set.Lattice
import Mathlib.Order.CompletePartialOrder
import StackMachine.Word

/-!
# Words in memory of bytes

A processor has memory of bytes that is addressed by words, so addresses wrap.  A word takes eight
bytes, the low one first.  What is written is read back, and reading is not affected by writes to
other bytes.

The memory around a pointer is described by distances from it (`distance`), which are integers: as
long as distances are far below the modulus, two accesses at known distances overlap just when the
distances say so (`mem_span_place`).
-/

namespace StackMachine

/-- Memory of bytes. -/
abbrev ByteMemory := Word → UInt8

namespace ByteMemory

variable {m m' : ByteMemory} {a b base value : Word} {i size size' : Nat} {k l : Int}

def readWord (m : ByteMemory) (address : Word) : Word :=
  Word.ofNat (Nat.ofDigits 256 ((List.range 8).map fun i => (m (address + Word.ofNat i)).toNat))

def writeWord (m : ByteMemory) (address value : Word) : ByteMemory := fun a =>
  let i := Word.toUnsigned (a - address)
  if i < 8 then UInt8.ofNat (Word.toUnsigned value / 256 ^ i) else m a

/-- The addresses of some bytes in a row. -/
def span (address : Word) (size : Nat) : Set Word := {a | Word.toUnsigned (a - address) < size}

lemma toUnsigned_add_sub (address : Word) (small : i < 2 ^ 64) :
    Word.toUnsigned (address + Word.ofNat i - address) = i := by
  have back : address + Word.ofNat i - address = Word.ofNat i := by grind
  rw [back, Word.toUnsigned_ofNat small]

lemma mem_span_add (address : Word) (lt : i < size) (small : i < 2 ^ 64) :
    address + Word.ofNat i ∈ span address size := by
  show Word.toUnsigned _ < size
  rwa [toUnsigned_add_sub address small]

/-- The low bytes of a number make up the number, as far as they go. -/
lemma ofDigits_bytes (n k : Nat) :
    Nat.ofDigits 256 ((List.range k).map fun i => n / 256 ^ i % 256) = n % 256 ^ k := by
  induction k with
  | zero => simp [Nat.mod_one]
  | succ k ih =>
    rw [List.range_succ, List.map_append, Nat.ofDigits_append, ih, List.length_map,
      List.length_range, List.map_singleton, Nat.ofDigits_singleton]
    exact (Nat.mod_pow_succ).symm

lemma readWord_congr (same : ∀ x ∈ span a 8, m' x = m x) : m'.readWord a = m.readWord a := by
  have bytes : ((List.range 8).map fun i => (m' (a + Word.ofNat i)).toNat) =
      (List.range 8).map fun i => (m (a + Word.ofNat i)).toNat := by
    refine List.map_congr_left fun i mem => ?_
    have lt := List.mem_range.1 mem
    rw [same _ (mem_span_add a lt (by omega))]
  rw [readWord, readWord, bytes]

/-- A word that has been written is read back. -/
lemma readWord_writeWord (m : ByteMemory) (address value : Word) :
    (m.writeWord address value).readWord address = value := by
  have bytes : ((List.range 8).map
      fun i => (m.writeWord address value (address + Word.ofNat i)).toNat) = (List.range 8).map
      fun i => Word.toUnsigned value / 256 ^ i % 256 := by
    refine List.map_congr_left fun i mem => ?_
    have lt := List.mem_range.1 mem
    simp only [writeWord, toUnsigned_add_sub address (show i < 2 ^ 64 by omega), if_pos lt,
      UInt8.toNat_ofNat']
  have below : Word.toUnsigned value < 256 ^ 8 := UInt64.toNat_lt _
  rw [readWord, bytes, ofDigits_bytes, Nat.mod_eq_of_lt below]
  show (UInt64.ofNat value.toUInt64.toNat).toInt64 = value
  rw [UInt64.ofNat_toNat]
  rfl

lemma writeWord_of_not_mem (outside : b ∉ span a 8) : m.writeWord a value b = m b := if_neg outside

lemma readWord_writeWord_of_disjoint (apart : Disjoint (span b 8) (span a 8)) :
    (m.writeWord a value).readWord b = m.readWord b :=
  readWord_congr fun _ mem => writeWord_of_not_mem fun mem' => Set.disjoint_left.1 apart mem mem'

/-! ### Memory around a pointer -/

/-- The distance of an address from a pointer. -/
def distance (base a : Word) : Int := (a - base).toInt

/-- The address at a distance from a pointer. -/
def place (base : Word) (k : Int) : Word := base + Int64.ofInt k

lemma place_zero (base : Word) : place base 0 = base := Int64.add_zero _

lemma place_add (base : Word) (k l : Int) : place (place base k) l = place base (k + l) := by
  unfold place
  rw [Int64.ofInt_add]
  grind

lemma sub_ofInt (w : Word) (k : Int) : w - Int64.ofInt k = place w (-k) := by
  rw [place, Int64.ofInt_neg, Int64.sub_eq_add_neg]

/-- The unsigned reading of a word from the signed one. -/
lemma cast_toUnsigned (w : Word) : (Word.toUnsigned w : Int) = w.toInt % 2 ^ 64 := by
  have signed : w.toInt = (Word.toUnsigned w : Int).bmod (2 ^ 64) := BitVec.toInt_eq_toNat_bmod _
  have below : Word.toUnsigned w < 2 ^ 64 := UInt64.toNat_lt _
  rw [Int.bmod_def] at signed
  split at signed <;> omega

/-- The bytes in a row at a distance from a pointer. -/
lemma mem_span_place (low : -2 ^ 62 ≤ k) (high : k + size ≤ 2 ^ 62) :
    a ∈ span (place base k) size ↔ k ≤ distance base a ∧ distance base a < k + size := by
  have below := (a - base).toInt_lt
  have above := (a - base).le_toInt
  have unsigned : (Word.toUnsigned (a - place base k) : Int) = (distance base a - k) % 2 ^ 64 := by
    have apart : a - place base k = (a - base) - Int64.ofInt k := by
      unfold place
      grind
    have wrapped : ((a - base) - Int64.ofInt k).toInt = ((a - base).toInt - k).bmod (2 ^ 64) := by
      rw [Int64.toInt_sub, Int64.toInt_ofInt_of_le (by omega) (by omega)]
    rw [cast_toUnsigned, apart, wrapped]
    exact Int.bmod_emod
  show Word.toUnsigned (a - place base k) < size ↔ _
  rw [← Int.ofNat_lt, unsigned]
  unfold distance
  omega

/-- Rows of bytes that do not overlap, by their distances from a pointer. -/
lemma disjoint_span_place (low : -2 ^ 62 ≤ k) (high : k + size ≤ 2 ^ 62) (low' : -2 ^ 62 ≤ l)
    (high' : l + size' ≤ 2 ^ 62) (apart : k + size ≤ l ∨ l + size' ≤ k) :
    Disjoint (span (place base k) size) (span (place base l) size') := by
  refine Set.disjoint_left.2 fun a here there => ?_
  rw [mem_span_place low high] at here
  rw [mem_span_place low' high'] at there
  omega

/-- A row of bytes inside another, by their distances from a pointer. -/
lemma span_place_subset (low : -2 ^ 62 ≤ l) (high : l + size' ≤ 2 ^ 62) (first : l ≤ k)
    (last : k + size ≤ l + size') : span (place base k) size ⊆ span (place base l) size' := by
  intro a here
  rw [mem_span_place (by omega) (by omega)] at here
  rw [mem_span_place low high]
  omega

/-- What is outside a row of bytes is outside each part of it. -/
lemma not_mem_span_place (outside : a ∉ span base size') (first : 0 ≤ k)
    (last : k + size ≤ size') (small : size' ≤ 2 ^ 62) : a ∉ span (place base k) size := by
  intro inside
  refine outside ?_
  rw [← place_zero base]
  exact span_place_subset (by omega) (by omega) first (by omega) inside

/-- The alignment of an address at an aligned distance. -/
lemma dvd_toUnsigned_place (aligned : 16 ∣ Word.toUnsigned base) (dvd : 16 ∣ k) :
    16 ∣ Word.toUnsigned (place base k) := by
  have wrapped : (place base k).toInt = (base.toInt + k).bmod (2 ^ 64) := by
    rw [place, Int64.toInt_add, Int64.toInt_ofInt]
    exact Int.add_bmod_bmod
  have unsigned : (Word.toUnsigned (place base k) : Int) = (base.toInt + k) % 2 ^ 64 := by
    rw [cast_toUnsigned, wrapped]
    exact Int.bmod_emod
  have unsignedBase := cast_toUnsigned base
  omega

/-! ### Several words -/

/-- Writes words, one after another. -/
def writeAll (m : ByteMemory) : List (Word × Word) → ByteMemory
  | [] => m
  | (address, value) :: rest => (m.writeWord address value).writeAll rest

variable {writes : List (Word × Word)}

lemma writeAll_append (m : ByteMemory) (first second : List (Word × Word)) :
    m.writeAll (first ++ second) = (m.writeAll first).writeAll second := by
  induction first generalizing m with
  | nil => rfl
  | cons p rest ih => exact ih _

lemma writeAll_of_not_mem (outside : ∀ p ∈ writes, b ∉ span p.1 8) : m.writeAll writes b = m b := by
  induction writes generalizing m with
  | nil => rfl
  | cons p rest ih =>
    obtain ⟨here, later⟩ := List.forall_mem_cons.1 outside
    rw [writeAll, ih later, writeWord_of_not_mem here]

/-- A word apart from those that are written stays. -/
lemma readWord_writeAll_of_disjoint (apart : ∀ p ∈ writes, Disjoint (span b 8) (span p.1 8)) :
    (m.writeAll writes).readWord b = m.readWord b :=
  readWord_congr fun _ mem => writeAll_of_not_mem fun p written => Set.disjoint_left.1
    (apart p written) mem

/-- Each of several words apart from each other is read back. -/
lemma readWord_writeAll (apart : writes.Pairwise fun p q => Disjoint (span p.1 8) (span q.1 8))
    (mem : (a, value) ∈ writes) : (m.writeAll writes).readWord a = value := by
  induction writes generalizing m with
  | nil => cases mem
  | cons p rest ih =>
    obtain ⟨first, later⟩ := List.pairwise_cons.1 apart
    rcases List.mem_cons.1 mem with rfl | mem
    · rw [writeAll, readWord_writeAll_of_disjoint first, readWord_writeWord]
    · exact ih later mem

end ByteMemory

end StackMachine
