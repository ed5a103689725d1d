import StackMachine.A64.Lowering
import StackMachine.Proofs.A64.Doubles

/-!
# Truncation on AArch64

The hardware converts a double with saturation and gives zero for what is not a number, while a
truncation is to give the least word in all these cases.  The code for it therefore looks at the
result of the conversion: the greatest word is no truncated double, so it comes from saturation; and
a comparison of the double with itself tells whether it is a number.
-/

namespace StackMachine.A64

open Native (execAll execAll_cons)

/-- The flag that a comparison with itself sets. -/
lemma overflow_ofOrder_self (d : Double) : (Flags.ofOrder (d.order? d)).overflow = d.isNaN := by
  rw [Double.order?_self]
  cases d.isNaN <;> rfl

/-- Adding one overflows for the greatest word only. -/
lemma overflow_addSub_one (a : Word) :
    (addSub false a 1).2.overflow = decide (a = Int64.maxValue) := by
  have least : -(2 ^ 63) ≤ a.toInt := Int64.le_toInt a
  have greatest : a.toInt < 2 ^ 63 := Int64.toInt_lt a
  have sum : (a + 1 + Word.ofBool false).toInt = (a.toInt + 1).bmod (2 ^ 64) := by
    rw [show Word.ofBool false = 0 from rfl, Int64.add_zero, Int64.toInt_add]
    rfl
  show decide ((a + 1 + Word.ofBool false).toInt ≠ a.toInt + 1 + 0) = _
  rw [sum, decide_eq_decide, ← Int64.toInt_inj, show Int64.maxValue.toInt = 2 ^ 63 - 1 from rfl]
  constructor
  · intro wraps
    by_contra other
    exact wraps (by rw [Int.bmod_eq_of_le (by omega) (by omega)]; omega)
  · intro same
    rw [same]
    decide

/-- Truncation is conversion, except that the least word stands for what is not a number and for the
greatest word, which only saturation gives. -/
lemma truncate_eq_converted (d : Double) : d.truncate = if d.isNaN then Int64.minValue else
      if converted d = Int64.maxValue then Int64.minValue else converted d := by
  cases shape : d.parts with
  | nan =>
    have nan : d.isNaN = true := by rw [Double.isNaN, shape]; rfl
    rw [if_pos nan, Double.truncate, shape]
  | infinite negative =>
    have number : d.isNaN = false := by rw [Double.isNaN, shape]; rfl
    rw [number, converted, Double.truncate, shape]
    cases negative <;> decide
  | finite negative mantissa exponent =>
    have number : d.isNaN = false := by rw [Double.isNaN, shape]; rfl
    have finite : d.value? = some (Double.dyadic negative mantissa exponent) := by
      rw [Double.value?, shape]
    have notMax := Double.truncated_ne_max finite
    have whole : converted d = saturated
      (truncated (Double.dyadic negative mantissa exponent)) := by
      rw [converted, shape]
    rw [Double.truncate_of_value finite, number, if_neg Bool.false_ne_true, whole, saturated]
    generalize truncated (Double.dyadic negative mantissa exponent) = n at notMax
    by_cases below : n < -(2 ^ 63)
    · rw [if_neg (by omega), max_eq_left (by omega)]
      decide
    by_cases above : n < 2 ^ 63
    · have inRange : max (-(2 ^ 63)) (min n (2 ^ 63 - 1)) = n := by omega
      have notGreatest : Int64.ofInt n ≠ Int64.maxValue := by
        intro same
        have := congrArg Int64.toInt same
        rw [Int64.toInt_ofInt_of_le (by omega) above] at this
        exact notMax this
      rw [if_pos ⟨by omega, above⟩, inRange, if_neg notGreatest]
    · rw [if_neg (by omega), min_eq_right (by omega)]
      decide

/-! ### Instructions -/

variable {dst : Reg}

/-- A conversion. -/
lemma perform_fcvtzs (general : dst ≠ Reg.zr) (s : Cpu) (src : DReg) :
    (Instr.fcvtzs dst src).perform s =
      some (s.setReg dst (converted (.ofWord (s.doubles src.named)))) := by
  have stands : (Instr.fcvtzs dst src).doubleForm? = some (.toInteger dst src.named) := rfl
  rw [Instr.perform_eq stands, DoubleForm.exec, Cpu.put_of_ne general]

lemma perform_movz_least (s : Cpu) :
    (Instr.movz scratch0 0x8000 3).perform s = some (s.setReg scratch0 Int64.minValue) := by
  have stands : (Instr.movz scratch0 0x8000 3).form? = some (.moveWide .zeros scratch0 0x8000 3) :=
    rfl
  refine Instr.perform_of_exec ?_
  rw [Instr.exec_eq stands, Form.exec, Cpu.put_of_ne (by decide)]
  rfl

lemma perform_cmnImm_one (s : Cpu) :
    (Instr.cmnImm dst 1).perform s = some (s.setFlags (addSub false (s.regs dst) 1).2) := by
  have stands : (Instr.cmnImm dst 1).form? = some (.addSubImm false true Reg.zr dst 1) := rfl
  refine Instr.perform_of_exec ?_
  rw [Instr.exec_eq stands]
  rfl

lemma perform_csel_vs (general : dst ≠ Reg.zr) (s : Cpu) :
    (Instr.csel dst scratch0 dst .vs).perform s =
        some (s.setReg dst (if s.flags.overflow then s.regs scratch0 else s.regs dst)) := by
  have stands : (Instr.csel dst scratch0 dst .vs).form? =
    some (.select false dst scratch0 dst .vs) := rfl
  refine Instr.perform_of_exec ?_
  rw [Instr.exec_eq stands, Form.exec, Cpu.put_of_ne general, Cpu.get_of_ne general,
    Cpu.get_of_ne (by decide)]
  rfl

/-- A comparison of a float register with itself. -/
lemma perform_fcmp_self (s : Cpu) (src : DReg) : (Instr.fcmp src src).perform s =
      some (s.setFlags (.ofOrder
        ((Double.ofWord (s.doubles src.named)).order? (.ofWord (s.doubles src.named))))) := by
  have stands : (Instr.fcmp src src).doubleForm? = some (.compare src.named src.named) := rfl
  rw [Instr.perform_eq stands, DoubleForm.exec]

/-! ### The code for a truncation -/

/-- The destination has the truncated double, and nothing else has changed but a scratch register
and the flags. -/
lemma perform_floatToInt (general : dst ≠ Reg.zr) (free : dst ≠ scratch0) (s : Cpu) (src : DReg) :
    ∃ t, execAll Instr.perform s (floatToInt dst src) = some t ∧ s.Spares [dst, scratch0] t ∧
      t.regs dst = (Double.ofWord (s.doubles src.named)).truncate := by
  have target : dst ∈ [dst, scratch0] := List.mem_cons_self
  have scratch : scratch0 ∈ [dst, scratch0] := List.mem_cons_of_mem _ List.mem_cons_self
  rw [floatToInt, execAll_cons (perform_fcvtzs general s src), execAll_cons (perform_movz_least _),
    execAll_cons (perform_cmnImm_one _), execAll_cons (perform_csel_vs general _),
    execAll_cons (perform_fcmp_self _ src), execAll_cons (perform_csel_vs general _)]
  refine ⟨_, rfl, ?_, ?_⟩
  · refine Cpu.Spares.setReg (Cpu.Spares.setFlags (Cpu.Spares.setReg ?_ target _) _) target _
    exact (((Cpu.Spares.refl s).setReg target _).setReg scratch _).setFlags _
  · simp [free, free.symm, overflow_addSub_one, overflow_ofOrder_self, truncate_eq_converted]

/-- **Truncation on AArch64.**  Whatever bits are in the source, the code for a truncation leaves
the truncated double: the integer part of a double with an integer part in the range of words, which
are the doubles in that range, and the least word for all others.  Nothing else changes but a
scratch register and the flags. -/
theorem floatToInt_truncates (general : dst ≠ Reg.zr) (free : dst ≠ scratch0) (s : Cpu)
    (src : DReg) :
    ∃ t d, execAll Instr.perform s (floatToInt dst src) = some t ∧ s.Spares [dst, scratch0] t ∧
      d = Double.ofWord (s.doubles src.named) ∧ t.regs dst = d.truncate ∧
      (∀ q, d.value? = some q → -(2 ^ 63) ≤ truncated q → truncated q < 2 ^ 63 →
        (t.regs dst).toInt = truncated q) ∧
      (∀ q, d.value? = some q →
        (-(2 ^ 63) ≤ q ∧ q < 2 ^ 63 ↔ -(2 ^ 63) ≤ truncated q ∧ truncated q < 2 ^ 63)) ∧
      ((∀ q, d.value? = some q → ¬(-(2 ^ 63) ≤ truncated q ∧ truncated q < 2 ^ 63)) →
        t.regs dst = Int64.minValue) := by
  obtain ⟨t, runs, spares, result⟩ := perform_floatToInt general free s src
  refine ⟨t, _, runs, spares, rfl, result, fun q finite least greatest => ?_,
    fun q finite => Double.truncated_mem_iff finite, fun outside => ?_⟩
  · rw [result, Double.truncate_of_value finite, if_pos ⟨least, greatest⟩,
      Int64.toInt_ofInt_of_le least greatest]
  · rw [result]
    cases finite : (Double.ofWord (s.doubles src.named)).value? with
    | none => exact Double.truncate_of_value_none finite
    | some q => rw [Double.truncate_of_value finite, if_neg (outside q finite)]

/-- The double -2.5 is truncated to -2. -/
theorem floatToInt_truncates_fraction :
    ∃ t, execAll Instr.perform ⟨fun _ => 0, fun _ => 0xC004000000000000, .ofOrder none, fun _ => 0⟩
      (floatToInt .x0 ⟨0⟩) = some t ∧
      t.regs .x0 = -2 := by
  have general : Reg.x0 ≠ Reg.zr := by decide
  obtain ⟨t, d, runs, -, rfl, result, -⟩ := floatToInt_truncates general (by decide)
    ⟨fun _ => 0, fun _ => 0xC004000000000000, .ofOrder none, fun _ => 0⟩ ⟨0⟩
  exact ⟨t, runs, result.trans (by decide)⟩

end StackMachine.A64
