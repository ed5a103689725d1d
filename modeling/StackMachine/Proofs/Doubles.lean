import Mathlib.Algebra.Order.Round
import Mathlib.Data.Rat.Floor
import Mathlib.Order.WithBot
import StackMachine.Double.Basic

/-!
# Doubles as rational numbers

A finite double is an exact rational number (`Double.value?`), and with the infinities doubles are
ordered (`Double.order?`).  Truncation of a double is the rational number without its fraction, if
that is in the range of words (`Double.truncate_of_value`).

A mantissa has 53 bits, so near the limits of the range doubles are even integers: no double is
truncated to the greatest word (`Double.truncated_ne_max`), and it makes no difference whether the
double itself is compared with the limits or its integer part (`Double.truncated_mem_iff`).
-/

namespace StackMachine

variable {q : ℚ} {n : ℤ}

/-- A rational number without its fraction. -/
def truncated (q : ℚ) : ℤ := if 0 ≤ q then ⌊q⌋ else ⌈q⌉

lemma truncated_of_nonneg (nonneg : 0 ≤ q) : truncated q = ⌊q⌋ := if_pos nonneg

lemma truncated_neg (q : ℚ) : truncated (-q) = -truncated q := by
  rcases lt_trichotomy q 0 with neg | rfl | pos
  · rw [truncated, if_pos (neg_nonneg.2 neg.le), truncated, if_neg (not_le.2 neg), Int.floor_neg]
  · rfl
  · rw [truncated, if_neg (by simpa using pos), truncated, if_pos pos.le, Int.ceil_neg]

lemma truncated_lt_iff (pos : 0 < n) : truncated q < n ↔ q < n := by
  unfold truncated
  split
  · exact Int.floor_lt
  · next neg =>
    have below : q < n := (not_le.1 neg).trans (by exact_mod_cast pos)
    have ceil : ⌈q⌉ ≤ 0 := Int.ceil_le.2 (by exact_mod_cast (not_le.1 neg).le)
    exact ⟨fun _ => below, fun _ => ceil.trans_lt pos⟩

/-- A bound from below that is negative, up to the fraction. -/
lemma le_truncated_iff (neg : n < 0) : n ≤ truncated q ↔ (n - 1 : ℚ) < q := by
  have other := truncated_lt_iff (q := -q) (n := 1 - n) (by omega)
  rw [truncated_neg] at other
  push_cast at other
  constructor
  · intro le
    linarith [other.1 (by omega)]
  · intro lt
    have := other.2 (by linarith)
    omega

namespace Double

/-! ### Values -/

/-- The number `± mantissa * 2 ^ exponent`. -/
def dyadic (negative : Bool) (mantissa : Nat) (exponent : Int) : ℚ :=
  let size : ℚ := mantissa * 2 ^ exponent
  if negative then -size else size

/-- The value of a finite double. -/
def value? (d : Double) : Option ℚ :=
  match d.parts with
  | .finite negative mantissa exponent => some (dyadic negative mantissa exponent)
  | _ => none

/-- The value of a double, with the infinities below and above all others. -/
def extended? (d : Double) : Option (WithBot (WithTop ℚ)) :=
  match d.parts with
  | .nan => none
  | .infinite negative => some (if negative then ⊥ else ⊤)
  | .finite negative mantissa exponent => some (dyadic negative mantissa exponent : WithTop ℚ)

/-- How doubles are ordered, unless one is not a number. -/
def order? (a b : Double) : Option Ordering := do return cmp (← a.extended?) (← b.extended?)

/-- A double is in order with itself, unless it is not a number. -/
lemma order?_self (d : Double) : d.order? d = if d.isNaN then none else some .eq := by
  unfold order? extended? isNaN
  cases d.parts with
  | nan => rfl
  | infinite negative | finite negative mantissa exponent => exact congrArg some (cmp_self_eq_eq _)

lemma mantissa_lt {d : Double} {negative : Bool} {mantissa : Nat} {exponent : Int}
    (finite : d.parts = .finite negative mantissa exponent) : mantissa < 2 ^ 53 := by
  have small : d.bits.toNat % 2 ^ 52 < 2 ^ 52 := Nat.mod_lt _ (by decide)
  unfold parts at finite
  dsimp only at finite
  split at finite
  · split at finite <;> cases finite
  · split at finite
    · cases finite
      omega
    · cases finite
      omega

/-! ### Integer parts -/

section wholePart

variable {mantissa : Nat} {exponent : Int}

lemma two_zpow (n : Nat) : (2 : ℚ) ^ (n : Int) = (2 ^ n : Nat) := by
  rw [zpow_natCast]
  exact (Nat.cast_pow 2 n).symm

/-- With an exponent that is not negative, the value is an integer. -/
lemma cast_wholePart (nonneg : 0 ≤ exponent) :
    (wholePart mantissa exponent : ℚ) = mantissa * 2 ^ exponent := by
  obtain ⟨n, rfl⟩ := Int.eq_ofNat_of_zero_le nonneg
  rw [wholePart, if_pos nonneg, two_zpow]
  exact Nat.cast_mul _ _

lemma floor_eq_wholePart (mantissa : Nat) (exponent : Int) :
    ⌊(mantissa * 2 ^ exponent : ℚ)⌋ = wholePart mantissa exponent := by
  rcases Int.lt_or_le exponent 0 with neg | nonneg
  · obtain ⟨n, rfl⟩ : ∃ n : Nat, exponent = -n := ⟨exponent.natAbs, by omega⟩
    have quotient : (mantissa * 2 ^ (-n : Int) : ℚ) = ((mantissa : Int) : ℚ) / (2 ^ n : Nat) := by
      rw [zpow_neg, two_zpow, div_eq_mul_inv, Int.cast_natCast]
    rw [quotient, Rat.floor_intCast_div_natCast, wholePart, if_neg (by omega), neg_neg,
      Int.toNat_natCast]
    rfl
  · rw [← cast_wholePart nonneg, Int.floor_natCast]

lemma wholePart_le_or_even (mantissa : Nat) (exponent : Int) :
    wholePart mantissa exponent ≤ mantissa ∨ 2 ∣ wholePart mantissa exponent ∧ 0 < exponent := by
  unfold wholePart
  split
  · obtain ⟨n, rfl⟩ := Int.eq_ofNat_of_zero_le ‹_›
    cases n with
    | zero => exact .inl (by simp)
    | succ n =>
      refine .inr ⟨?_, by omega⟩
      exact Nat.dvd_mul_left_of_dvd (dvd_pow_self 2 n.succ_ne_zero) _
  · exact .inl (Nat.div_le_self _ _)

end wholePart

lemma truncated_dyadic (negative : Bool) (mantissa : Nat) (exponent : Int) :
    truncated (dyadic negative mantissa exponent) =
      if negative then -(wholePart mantissa exponent : Int) else wholePart mantissa exponent := by
  have nonneg : (0 : ℚ) ≤ mantissa * 2 ^ exponent :=
    mul_nonneg (Nat.cast_nonneg _) (zpow_nonneg (by norm_num) _)
  have whole : truncated (mantissa * 2 ^ exponent) = wholePart mantissa exponent := by
    rw [truncated_of_nonneg nonneg, floor_eq_wholePart]
  cases negative with
  | false => exact whole
  | true =>
    show truncated (-_) = -_
    rw [truncated_neg, whole]

variable {d : Double} {q : ℚ}

/-- What is not finite is truncated to the least word. -/
lemma truncate_of_value_none (infinite : d.value? = none) : d.truncate = Int64.minValue := by
  unfold value? at infinite
  unfold truncate
  cases parts : d.parts with
  | finite negative mantissa exponent =>
    rw [parts] at infinite
    cases infinite
  | _ => rfl

variable (finite : d.value? = some q)
include finite

lemma exists_parts : ∃ negative mantissa exponent,
    d.parts = .finite negative mantissa exponent ∧ dyadic negative mantissa exponent = q ∧
    mantissa < 2 ^ 53 := by
  unfold value? at finite
  split at finite
  · next negative mantissa exponent same =>
    exact ⟨negative, mantissa, exponent, same, Option.some.inj finite, mantissa_lt same⟩
  · cases finite

/-- Truncation drops the fraction of a finite double, within the range of words. -/
lemma truncate_of_value :
    d.truncate = if -(2 ^ 63) ≤ truncated q ∧ truncated q < 2 ^ 63 then Int64.ofInt (truncated q)
    else
      Int64.minValue := by
  obtain ⟨negative, mantissa, exponent, same, rfl, -⟩ := exists_parts finite
  rw [truncate, same, truncated_dyadic]

/-- No double is truncated to the greatest word. -/
lemma truncated_ne_max : truncated q ≠ 2 ^ 63 - 1 := by
  obtain ⟨negative, mantissa, exponent, same, rfl, small⟩ := exists_parts finite
  have parity := wholePart_le_or_even mantissa exponent
  rw [truncated_dyadic]
  cases negative <;> grind

/-- Only the least word itself is truncated to it from within the range. -/
lemma eq_least_of_truncated (least : truncated q = -(2 ^ 63)) : q = -(2 ^ 63) := by
  obtain ⟨negative, mantissa, exponent, same, rfl, small⟩ := exists_parts finite
  rw [truncated_dyadic] at least
  cases negative with
  | false => simp at least
  | true =>
    have whole : wholePart mantissa exponent = 2 ^ 63 := by
      simp at least
      omega
    have exact : 0 < exponent := by
      rcases wholePart_le_or_even mantissa exponent with le | ⟨-, pos⟩
      · omega
      · exact pos
    show -_ = _
    rw [← cast_wholePart exact.le, whole]
    rfl

/-- A double is in the range of words just if its integer part is. -/
lemma truncated_mem_iff :
    -(2 ^ 63) ≤ q ∧ q < 2 ^ 63 ↔ -(2 ^ 63) ≤ truncated q ∧ truncated q < 2 ^ 63 := by
  have power : (((2 : ℤ) ^ (63 : ℕ) : ℤ) : ℚ) = 2 ^ 63 := by norm_num
  have above := truncated_lt_iff (q := q) (n := (2 : ℤ) ^ (63 : ℕ)) (by decide)
  have below := le_truncated_iff (q := q) (n := -(2 : ℤ) ^ (63 : ℕ)) (by decide)
  have inside := le_truncated_iff (q := q) (n := -(2 : ℤ) ^ (63 : ℕ) + 1) (by decide)
  rw [power] at above
  rw [Int.cast_neg, power] at below
  rw [Int.cast_add, Int.cast_neg, power, Int.cast_one] at inside
  constructor
  · rintro ⟨least, greatest⟩
    exact ⟨below.2 (by linarith), above.2 greatest⟩
  · rintro ⟨least, greatest⟩
    refine ⟨?_, above.1 greatest⟩
    rcases least.eq_or_lt with same | lt
    · exact (eq_least_of_truncated finite same.symm).ge
    · linarith [inside.1 lt]

end Double

end StackMachine
