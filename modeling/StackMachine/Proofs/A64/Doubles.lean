import StackMachine.Proofs.A64.Machine
import StackMachine.Proofs.Doubles

/-!
# Float instructions on AArch64

Words that load and store float registers, move bits into them, convert and compare
(`decodeDouble`), and what they do: a conversion drops the fraction, saturates at the limits of
words and gives zero for what is not a number; a comparison sets the overflow flag when one of the
operands is not a number.  `Instr.perform` executes words of both formats.
-/

namespace StackMachine.A64

open Native (execAll execAll_cons)

variable {form : DoubleForm}

/-! ### Format -/

/-- Instructions on float registers. -/
inductive DoubleForm where
  | access (load : Bool) (rt : DReg) (rn : Reg) (offset : Nat)
  | moveIn (rd : DReg) (rn : Reg)
  | toInteger (rd : Reg) (rn : DReg)
  | compare (rn rm : DReg)
  deriving DecidableEq, Repr

/-- The form of a word on float registers. -/
def decodeDouble (word : UInt32) : Option DoubleForm :=
  let n := word.toNat
  match bits n 24 8 with
  | 0xFD =>
    if flag n 23 then none
      else some (.access (flag n 22) (.ofNum (bits n 0 5)) (rnOf n) (8 * bits n 10 12))
  | 0x9E =>
    if bits n 21 3 = 3 ∧ bits n 10 6 = 0 then
      match bits n 16 5 with
      | 0x07 => some (.moveIn (.ofNum (bits n 0 5)) (rnOf n))
      | 0x18 => some (.toInteger (rdOf n) (.ofNum (bits n 5 5)))
      | _ => none
    else none
  | 0x1E =>
    if bits n 21 3 = 3 ∧ bits n 10 6 = 8 ∧ bits n 0 5 = 0 then
      some (.compare (.ofNum (bits n 5 5)) (.ofNum (bits n 16 5)))
    else none
  | _ => none

/-- The register that a word names: its number has five bits. -/
def DReg.named (d : DReg) : DReg := ⟨d.id &&& 0x1F⟩

/-- The form of an instruction on float registers. -/
def Instr.doubleForm? : Instr → Option DoubleForm
  | .ldrD rt rn offset => some (.access true rt.named rn (8 * (offset.toNat / 8 % 2 ^ 12)))
  | .strD rt rn offset => some (.access false rt.named rn (8 * (offset.toNat / 8 % 2 ^ 12)))
  | .fmovFromGpr rd rn => some (.moveIn rd.named rn)
  | .fcvtzs rd rn => some (.toInteger rd rn.named)
  | .fcmp rn rm => some (.compare rn.named rm.named)
  | _ => none

lemma decodeDouble_access (load : Bool) (rt : DReg) (rn : Reg) (offset : UInt32) :
    decodeDouble (immFields (if load then 0xFD400000 else 0xFD000000) (offset / 8) rn.num rt.num) =
      some (.access load rt.named rn (8 * (offset.toNat / 8 % 2 ^ 12))) := by
  show decodeDouble (put _ [.masked8 0 5 rt.id 0x1F rfl, .reg 5 rn,
    .masked 10 12 (offset / 8) 0xFFF rfl]) = _
  cases load
  all_goals
    simp (disch := decide) only [decodeDouble, flag, rnOf, bits_put_apart, bits_put_field, put_nil,
      bits_or_of_free, Reg.ofNum_num, DReg.ofNum_mod, UInt32.toNat_div]
    rfl

/-- The word of a move into a float register. -/
lemma decodeDouble_fmovFromGpr (rd : DReg) (rn : Reg) :
    decodeDouble (Instr.fmovFromGpr rd rn).encode = some (.moveIn rd.named rn) := by
  show decodeDouble (put 0x9E670000 [.masked8 0 5 rd.id 0x1F rfl, .reg 5 rn]) = _
  simp (disch := decide) only [decodeDouble, rnOf, bits_put_apart, bits_put_field, put_nil,
    bits_or_of_free, Reg.ofNum_num, DReg.ofNum_mod]
  rfl

lemma decodeDouble_fcvtzs (rd : Reg) (rn : DReg) :
    decodeDouble (Instr.fcvtzs rd rn).encode = some (.toInteger rd rn.named) := by
  show decodeDouble (put 0x9E780000 [.reg 0 rd, .masked8 5 5 rn.id 0x1F rfl]) = _
  simp (disch := decide) only [decodeDouble, rdOf, bits_put_apart, bits_put_field, put_nil,
    bits_or_of_free, Reg.ofNum_num, DReg.ofNum_mod]
  rfl

lemma decodeDouble_fcmp (rn rm : DReg) :
    decodeDouble (Instr.fcmp rn rm).encode = some (.compare rn.named rm.named) := by
  show decodeDouble (put 0x1E602000 [.reg 0 .x0, .masked8 5 5 rn.id 0x1F rfl,
    .masked8 16 5 rm.id 0x1F rfl]) = _
  simp (disch := decide) only [decodeDouble, bits_put_apart, bits_put_field, put_nil,
    bits_or_of_free, DReg.ofNum_mod]
  rfl

/-- The word of an instruction on float registers is read back. -/
theorem decodeDouble_encode {i : Instr} (stands : i.doubleForm? = some form) :
    decodeDouble i.encode = some form := by
  rw [← stands]
  cases i
  case ldrD rt rn offset => exact decodeDouble_access true rt rn offset
  case strD rt rn offset => exact decodeDouble_access false rt rn offset
  case fmovFromGpr rd rn => exact decodeDouble_fmovFromGpr rd rn
  case fcvtzs rd rn => exact decodeDouble_fcvtzs rd rn
  case fcmp rn rm => exact decodeDouble_fcmp rn rm
  all_goals cases stands

/-! ### Execution -/

/-- The word next to a number: beyond the limits, the least or the greatest word. -/
def saturated (n : Int) : Word := Int64.ofInt (max (-(2 ^ 63)) (min n (2 ^ 63 - 1)))

/-- Conversion to a word as the hardware does it. -/
def converted (d : Double) : Word :=
  match d.parts with
  | .nan => 0
  | .infinite negative => if negative then Int64.minValue else Int64.maxValue
  | .finite negative mantissa exponent =>
    saturated (truncated (Double.dyadic negative mantissa exponent))

/-- The flags of a comparison; without an order, carry and overflow are set. -/
def Flags.ofOrder : Option Ordering → Flags
  | some .lt => ⟨true, false, false, false⟩
  | some .eq => ⟨false, true, true, false⟩
  | some .gt => ⟨false, false, true, false⟩
  | none => ⟨false, false, true, true⟩

/-- Executes an instruction on float registers. -/
def DoubleForm.exec (s : Cpu) : DoubleForm → Cpu
  | .access load rt rn offset =>
    let address := s.regs rn + Word.ofNat offset
    if load then s.setDouble rt (s.memory.readWord address) else s.store address (s.doubles rt)
  | .moveIn rd rn => s.setDouble rd (s.get rn)
  | .toInteger rd rn => s.put rd (converted (.ofWord (s.doubles rn)))
  | .compare rn rm =>
    s.setFlags (Flags.ofOrder
      ((Double.ofWord (s.doubles rn)).order? (Double.ofWord (s.doubles rm))))

/-- Executes the word of an instruction, whichever registers it is on. -/
def Instr.perform (s : Cpu) (i : Instr) : Option Cpu :=
  i.exec s <|> (decodeDouble i.encode).map fun form => form.exec s

variable {s t : Cpu} {i : Instr}

/-- An instruction that is not on float registers. -/
lemma Instr.perform_of_exec (run : i.exec s = some t) : i.perform s = some t := by
  rw [Instr.perform, run]
  rfl

lemma execAll_perform {instrs : List Instr} (run : execAll Instr.exec s instrs = some t) :
    execAll Instr.perform s instrs = some t := by
  induction instrs generalizing s with
  | nil => exact run
  | cons i rest ih =>
    obtain ⟨u, first, later⟩ := Option.bind_eq_some_iff.1 run
    rw [execAll_cons (Instr.perform_of_exec first), ih later]

lemma decode_eq_none {word : UInt32} (read : decodeDouble word = some form) :
    decode word = none := by
  unfold decodeDouble at read
  dsimp only at read
  unfold decode
  split at read
  iterate 3 next group => rw [group]; rfl
  · cases read

/-- An instruction on float registers is executed as what it stands for. -/
lemma Instr.perform_eq (stands : i.doubleForm? = some form) : i.perform s = some (form.exec s) := by
  have read := decodeDouble_encode stands
  rw [Instr.perform, Instr.exec, decode_eq_none read, read]
  rfl

end StackMachine.A64
