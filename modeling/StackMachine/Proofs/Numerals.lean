import StackMachine.Numeral
import StackMachine.Proofs.ByteMemory

/-!
# Numerals that are read back

The digits of a number in a base are read back (`Numeral.natural?_toDigits`).  A word is written in
base 2, 8 or 16 as the number of its bits.  So it is read back if it is not negative, and is out of
range otherwise (`Numeral.read_write_of_bits`).  In every other base it is written in signed
decimal, and is read back in base 10 (`Numeral.read_write_of_decimal`).

A mark for the base is written in base 16 only.  No other numeral begins with one, since no decimal
digit is the letter of a mark (`Numeral.markedBase?_eq_none`).
-/

namespace StackMachine

namespace Text

lemma trim_eq_self {s : List Char} (solid : ∀ c ∈ s, isBlank c = false) : trim s = s := by
  have stays {t : List Char} (solid : ∀ c ∈ t, isBlank c = false) : t.dropWhile isBlank = t := by
    cases t with
    | nil => rfl
    | cons c rest => exact List.dropWhile_cons_of_neg (by simp [solid c])
  rw [trim, stays solid, stays fun c mem => solid c (List.mem_reverse.1 mem), List.reverse_reverse]

end Text

namespace Numeral

variable {base n : Nat} {s rest : List Char} {c : Char}

/-! ### Digits -/

lemma digit?_digitChar (small : base ≤ 16) (lt : n < base) :
    digit? base (Nat.digitChar n) = some n := by
  have each : ∀ base ≤ 16, ∀ n < base, digit? base (Nat.digitChar n) = some n := by decide
  exact each base small n lt

lemma foldDigits?_append (base start : Nat) (s rest : List Char) :
    foldDigits? base start (s ++ rest) = (foldDigits? base start s).bind
    fun n => foldDigits? base n rest := by
  induction s generalizing start with
  | nil => rfl
  | cons c s ih =>
    rw [List.cons_append, foldDigits?, foldDigits?]
    cases digit? base c with
    | none => rfl
    | some d => exact ih _

lemma exists_of_mem_toDigits (two : 1 < base) (mem : c ∈ Nat.toDigits base n) :
    ∃ d < base, c = Nat.digitChar d := by
  induction n using Nat.strongRecOn with
  | ind n ih =>
    rcases Nat.lt_or_ge n base with lt | ge
    · rw [Nat.toDigits_of_lt_base lt, List.mem_singleton] at mem
      exact ⟨n, lt, mem⟩
    · rw [Nat.toDigits_of_base_le two ge, List.mem_append, List.mem_singleton] at mem
      rcases mem with before | last
      · exact ih (n / base) (Nat.div_lt_self (by omega) two) before
      · exact ⟨n % base, Nat.mod_lt n (by omega), last⟩

/-! ### Signs and marks -/

/-- The letters of the marks for a base. -/
def markLetters : List Char := ['b', 'B', 'o', 'O', 'x', 'X']

/-- Text without the letters of marks has no mark. -/
lemma markedBase?_eq_none (unmarked : ∀ c ∈ s, c ∉ markLetters) : markedBase? s = none := by
  unfold markedBase?
  split
  · next mark c rest =>
    have none := unmarked mark (by simp)
    simp only [markLetters, List.mem_cons, List.not_mem_nil, or_false, not_or] at none
    rw [if_neg (by simp [none]), if_neg (by simp [none]), if_neg (by simp [none])]
  · rfl

/-- The characters that numerals are written with. -/
def alphabet : List Char := "0123456789abcdefx-".toList

/-! ### Digits of a number -/

section

variable (two : 1 < base) (small : base ≤ 16)
include two small

/-- The digits of a number are read back. -/
lemma foldDigits?_toDigits (n : Nat) : foldDigits? base 0 (Nat.toDigits base n) = some n := by
  induction n using Nat.strongRecOn with
  | ind n ih =>
    rcases Nat.lt_or_ge n base with lt | ge
    · rw [Nat.toDigits_of_lt_base lt, foldDigits?, digit?_digitChar small lt]
      dsimp only
      rw [foldDigits?, Nat.zero_mul, Nat.zero_add]
    · have last : n % base < base := Nat.mod_lt n (by omega)
      rw [Nat.toDigits_of_base_le two ge, foldDigits?_append,
        ih (n / base) (Nat.div_lt_self (by omega) two), Option.bind_some, foldDigits?,
          digit?_digitChar small last]
      dsimp only
      rw [foldDigits?, Nat.div_add_mod']

lemma natural?_toDigits (n : Nat) : natural? base (Nat.toDigits base n) = some n := by
  rw [natural?, if_neg (by simp [Nat.toDigits_ne_nil]), foldDigits?_toDigits two small]

lemma integer?_toDigits (n : Nat) :
    integer? base (Nat.toDigits base n) = if n < 2 ^ 63 then some (Int64.ofInt n) else none := by
  have unsigned : ∀ d < 16, Nat.digitChar d ≠ '-' ∧ Nat.digitChar d ≠ '+' := by decide
  have first {mark : Char} {rest : List Char} (starts : Nat.toDigits base n = mark :: rest) :
      mark ≠ '-' ∧ mark ≠ '+' := by
    obtain ⟨d, lt, rfl⟩ := exists_of_mem_toDigits two (starts ▸ List.mem_cons_self)
    exact unsigned d (by omega)
  unfold integer?
  split
  · next starts => exact absurd rfl (first starts).1
  · next starts => exact absurd rfl (first starts).2
  · rw [natural?_toDigits two small, Option.map_some]
    exact if_congr (by rw [Int.ofNat_eq_natCast]; omega) rfl rfl

lemma integer?_minus_toDigits (n : Nat) :
    integer? base ('-' :: Nat.toDigits base n) = if n ≤ 2 ^ 63 then some (Int64.ofInt (-n))
    else none := by
  rw [integer?, natural?_toDigits two small]
  exact if_congr (by dsimp only; omega) rfl rfl

lemma mem_alphabet_of_mem_toDigits (mem : c ∈ Nat.toDigits base n) : c ∈ alphabet := by
  have each : ∀ d < 16, Nat.digitChar d ∈ alphabet := by decide
  obtain ⟨d, lt, rfl⟩ := exists_of_mem_toDigits two mem
  exact each d (by omega)

end

lemma mem_alphabet_of_mem_write {base value : Word} (mem : c ∈ (write base value).toList) :
    c ∈ alphabet := by
  unfold write signedDecimal at mem
  split at mem
  · exact mem_alphabet_of_mem_toDigits (by decide) (by decide) (String.toList_ofList ▸ mem)
  · split at mem
    · exact mem_alphabet_of_mem_toDigits (by decide) (by decide) (String.toList_ofList ▸ mem)
    · split at mem
      · rw [String.toList_ofList, List.mem_cons, List.mem_cons] at mem
        rcases mem with rfl | rfl | digit
        · decide
        · decide
        · exact mem_alphabet_of_mem_toDigits (by decide) (by decide) digit
      · split at mem
        · rw [String.toList_ofList, List.mem_cons] at mem
          rcases mem with rfl | digit
          · decide
          · exact mem_alphabet_of_mem_toDigits (by decide) (by decide) digit
        · exact mem_alphabet_of_mem_toDigits (by decide) (by decide) (String.toList_ofList ▸ mem)

lemma ne_nul_of_mem_alphabet (mem : c ∈ alphabet) : c ≠ '\x00' := by
  have noZero : '\x00' ∉ alphabet := by decide
  exact ne_of_mem_of_not_mem mem noZero

/-! ### Words that are written and read -/

variable {asked : Word}

section

variable (inAlphabet : ∀ c ∈ s, c ∈ alphabet)
include inAlphabet

lemma trim_eq_self : Text.trim s = s := by
  have solid : (alphabet.all fun c => Text.isBlank c == false) = true := by decide
  exact Text.trim_eq_self fun c mem => eq_of_beq (List.all_eq_true.1 solid c (inAlphabet c mem))

/-- Text without a mark is read in the base that is asked for. -/
lemma read_of_unmarked (unmarked : markedBase? s = none) :
    read asked (String.ofList s) =
      (integer? (if 2 ≤ asked ∧ asked ≤ 36 then asked.toInt.toNat else 10) s).getD 0 := by
  unfold read
  rw [String.toList_ofList, trim_eq_self inAlphabet]
  dsimp only
  rw [unmarked]

lemma read_of_marked (marked : markedBase? s = some (base, rest)) :
    read asked (String.ofList s) = (integer? base rest).getD 0 := by
  unfold read
  rw [String.toList_ofList, trim_eq_self inAlphabet]
  dsimp only
  rw [marked]

end

lemma not_mem_markLetters (two : 1 < base) (small : base ≤ 10) (mem : c ∈ Nat.toDigits base n) :
    c ∉ markLetters := by
  have each : ∀ d < 10, Nat.digitChar d ∉ markLetters := by decide
  obtain ⟨d, lt, rfl⟩ := exists_of_mem_toDigits two mem
  exact each d (by omega)

/-- Digits of a base up to ten are read in this base. -/
lemma read_toDigits (two : 1 < base) (small : base ≤ 10)
    (asks : (if 2 ≤ asked ∧ asked ≤ 36 then asked.toInt.toNat else 10) = base) (n : Nat) :
    read asked (String.ofList (Nat.toDigits base n)) = if n < 2 ^ 63 then Int64.ofInt n else 0 := by
  rw [read_of_unmarked (fun c => mem_alphabet_of_mem_toDigits two (by omega))
    (markedBase?_eq_none fun c => not_mem_markLetters two small), asks,
      integer?_toDigits two (by omega)]
  split <;> rfl

/-- The bits of a word are in the range of words as a number if the word is not negative. -/
lemma ofInt_toUnsigned (value : Word) :
    Int64.ofInt (Word.toUnsigned value) = value ∧
    (Word.toUnsigned value < 2 ^ 63 ↔ 0 ≤ value.toInt) := by
  have cast := ByteMemory.cast_toUnsigned value
  have low := value.le_toInt
  have high := value.toInt_lt
  refine ⟨?_, by omega⟩
  apply Int64.toInt_inj.1
  rw [Int64.toInt_ofInt, cast]
  exact (Int.emod_bmod _ _).trans value.toInt_bmod

/-- Bits that are written are read back if the word is not negative, and are out of range if it
is. -/
lemma read_write_of_bits {base : Word} (bits : base = 2 ∨ base = 8 ∨ base = 16) (value : Word) :
    read base (write base value) = if 0 ≤ value.toInt then value else 0 := by
  obtain ⟨same, small⟩ := ofInt_toUnsigned value
  have inRange : (if Word.toUnsigned value < 2 ^ 63 then Int64.ofInt (Word.toUnsigned value)
      else 0) = if 0 ≤ value.toInt then value else 0 := by
    rw [same]
    exact if_congr small rfl rfl
  rw [← inRange]
  rcases bits with rfl | rfl | rfl
  · exact read_toDigits (by decide) (by decide) (by decide) _
  · exact read_toDigits (by decide) (by decide) (by decide) _
  · have marked : markedBase? ('0' :: 'x' :: Nat.toDigits 16 (Word.toUnsigned value)) =
        some (16, Nat.toDigits 16 (Word.toUnsigned value)) := by
      obtain ⟨c, rest, digits⟩ :=
        List.exists_cons_of_ne_nil (Nat.toDigits_ne_nil (n := Word.toUnsigned value) (b := 16))
      rw [digits]
      rfl
    have writes : write 16 value =
      String.ofList ('0' :: 'x' :: Nat.toDigits 16 (Word.toUnsigned value)) := rfl
    have inAlphabet {c : Char} (mem : c ∈ '0' :: 'x' :: Nat.toDigits 16 (Word.toUnsigned value)) :
      c ∈ alphabet := by
      have written : c ∈ (write 16 value).toList := by rwa [writes, String.toList_ofList]
      exact mem_alphabet_of_mem_write written
    rw [writes, read_of_marked (fun c => inAlphabet) marked,
      integer?_toDigits (by decide) (by decide)]
    split <;> rfl

/-- A word that is written in decimal is read back, the least word too. -/
lemma read_write_of_decimal {base : Word} (decimal : base ≠ 2 ∧ base ≠ 8 ∧ base ≠ 16)
    (value : Word) :
    read 10 (write base value) = value := by
  have low := value.le_toInt
  have high := value.toInt_lt
  rw [write, if_neg decimal.1, if_neg decimal.2.1, if_neg decimal.2.2, signedDecimal]
  split
  · next negative =>
    have inAlphabet {c : Char} (mem : c ∈ '-' :: Nat.toDigits 10 value.toInt.natAbs) :
      c ∈ alphabet := by
      rcases List.mem_cons.1 mem with rfl | digit
      · decide
      · exact mem_alphabet_of_mem_toDigits (by decide) (by decide) digit
    have unmarked {c : Char} (mem : c ∈ '-' :: Nat.toDigits 10 value.toInt.natAbs) :
      c ∉ markLetters := by
      rcases List.mem_cons.1 mem with rfl | digit
      · decide
      · exact not_mem_markLetters (by decide) (by decide) digit
    have signed : -(value.toInt.natAbs : Int) = value.toInt := by omega
    have asks : (if (2 : Word) ≤ 10 ∧ (10 : Word) ≤ 36 then (10 : Word).toInt.toNat else 10) =
      10 := by decide
    rw [read_of_unmarked (fun c => inAlphabet) (markedBase?_eq_none fun c => unmarked), asks,
      integer?_minus_toDigits (by decide) (by decide), if_pos (by omega), signed, Int64.ofInt_toInt,
        Option.getD_some]
  · next nonneg =>
    have unsigned : (value.toInt.natAbs : Int) = value.toInt := by omega
    rw [read_toDigits (by decide) (by decide) (by decide), if_pos (by omega), unsigned,
      Int64.ofInt_toInt]

end Numeral

end StackMachine
