import StackMachine.Proofs.Native.Layout
import StackMachine.Proofs.X64.Machine
import StackMachine.X64.Lowering

/-!
# Integer operations on x86-64

The code of an integer operation computes what the operation means (`executes_integer_operations`).
It is executed as the bytes that the backend gives, wherever they stand in the code and with any
displacement in the field of their branch (`Executes`).

An immediate or a slot may need the scratch register; a count that is not constant goes through
`cl`, and `rcx` is given back what it held; a divisor of -1 does not reach the division instruction.
In each case no register that can be allocated changes but the destination, and memory stays as it
is (`Keeps`).
-/

namespace StackMachine.X64

open Native

variable {index : Nat} {divisor : Reg} {post : Cpu → Prop} {relation : Comparison} {holds : Bool}

/-! ### Operands -/

/-- The integer registers that are allocated under a calling convention. -/
def Abi.intRegs (abi : Abi) : List Reg := abi.intPools.1 ++ abi.intPools.2

/-- An operand is an immediate, a slot, or in an allocated register. -/
def Abi.Offers (abi : Abi) : Src Reg → Prop
  | .reg r => r ∈ abi.intRegs
  | .imm _ | .slot _ => True

/-- The value of an operand. -/
def Cpu.src (s : Cpu) : Src Reg → Word
  | .reg r => s.regs r
  | .imm value => value
  | .slot index => s.load .word (slot index)

/-- The registers that are never allocated and may be overwritten. -/
def scratchRegs : List Reg := [.rax, .rdx, scratch]

variable {abi : Abi} {addresses : Addresses} {s t u : Cpu} {dst r : Reg} {src : Src Reg}
  {value : Word}

/-- Allocated registers are no scratch registers, and neither the stack pointer nor the frame
pointer. -/
lemma Abi.not_mem_of_mem_intRegs (mem : r ∈ abi.intRegs) : r ∉ .rsp :: .rbp :: scratchRegs := by
  cases abi <;> revert r <;> decide

lemma Abi.ne_of_mem_intRegs (mem : r ∈ abi.intRegs) : r ≠ .rsp ∧ r ≠ .rbp ∧ r ≠ .rax ∧ r ≠ .rdx ∧
    r ≠ scratch := by
  cases abi <;> revert r <;> decide

lemma slot_disp (index : Nat) : (slot index).disp = Int32.ofInt (-56 - 8 * (index + 1)) := by
  have next : Int32.ofInt (index + 1) = Int32.ofNat index + 1 := by
    rw [Int32.ofInt_add]
    rfl
  rw [Int32.ofInt_sub, Int32.ofInt_mul, next]
  rfl

lemma toInt64_slot_disp (reached : index + 8 ≤ 2 ^ 28) :
    (slot index).disp.toInt64 = -56 - 8 * (Word.ofNat index + 1) := by
  have word : Int64.ofInt (-56 - 8 * (index + 1)) = -56 - 8 * (Word.ofNat index + 1) := by
    have next : Int64.ofInt (index + 1) = Word.ofNat index + 1 := by
      rw [Int64.ofInt_add]
      rfl
    rw [Int64.ofInt_sub, Int64.ofInt_mul, next]
    rfl
  rw [slot_disp, ← word, ← Int64.toInt_inj, Int32.toInt_toInt64, Int32.toInt_ofInt_of_le (by omega)
    (by omega), Int64.toInt_ofInt_of_le (by omega) (by omega)]

/-- The address of a slot that a displacement of 32 bits reaches. -/
lemma address_slot (s : Cpu) (reached : index + 8 ≤ 2 ^ 28) :
    s.address (slot index) = s.regs .rbp - 56 - 8 * (Word.ofNat index + 1) := by
  have disp := toInt64_slot_disp reached
  have base : s.address (slot index) = s.regs .rbp + 0 + (slot index).disp.toInt64 := rfl
  grind

/-! ### What stays -/

/-- Two states differ at most in the registers that are written, in scratch registers and in the
flags. -/
structure Keeps (abi : Abi) (written : List Reg) (s t : Cpu) : Prop where
  allocated : ∀ r ∈ abi.intRegs, r ∉ written → t.regs r = s.regs r
  floats : t.xmms = s.xmms
  stackPointer : t.regs .rsp = s.regs .rsp
  framePointer : t.regs .rbp = s.regs .rbp
  slots : ∀ index, t.src (.slot index) = s.src (.slot index)
  memory : t.memory = s.memory

/-- A slot is found through the frame pointer. -/
lemma load_slot (framePointer : t.regs .rbp = s.regs .rbp) (memory : t.memory = s.memory)
    (index : Nat) :
    t.load .word (slot index) = s.load .word (slot index) := by
  have same : t.address (slot index) = s.address (slot index) := by
    simp only [Cpu.address, slot, mem, framePointer]
  rw [Cpu.load, Cpu.load, Cpu.read, Cpu.read, same, memory]

/-- Code that writes allocated registers, and scratch registers besides. -/
lemma Keeps.of_spares {written : List Reg} (allocated : ∀ r ∈ written, r ∈ abi.intRegs)
    (spares : s.Spares (written ++ scratchRegs) t) : Keeps abi written s t := by
  have pointer {r : Reg} (mem : r ∈ [Reg.rsp, .rbp]) : t.regs r = s.regs r := by
    apply spares.regs
    intro inCode
    rcases List.mem_append.1 inCode with own | isScratch
    · have other := Abi.ne_of_mem_intRegs (allocated r own)
      simp [other.1, other.2.1] at mem
    · simp only [List.mem_cons, List.not_mem_nil, or_false] at mem
      rcases mem with rfl | rfl <;> simp [scratchRegs, scratch] at isScratch
  constructor
  · intro r mem other
    have noScratch := Abi.not_mem_of_mem_intRegs mem
    apply spares.regs
    simp only [List.mem_append, not_or]
    exact ⟨other, fun isScratch => noScratch (.tail _ (.tail _ isScratch))⟩
  · exact spares.floats
  · exact pointer (by simp)
  · exact pointer (by simp)
  · exact load_slot (pointer (by simp)) spares.memory
  · exact spares.memory

/-! ### Straight code

Each part of an operation without jumps is executed symbolically.  What it leaves in its destination
is computed; what it leaves alone is read off the registers that its instructions name. -/

lemma exec_moveConst (s : Cpu) (r : Reg) (value : Word) :
    ∃ flags, (Instr.moveConst r value).exec s = .ok ((s.setReg r value).setFlags flags) := by
  unfold Instr.moveConst
  split
  case isTrue zero =>
    rw [zero]
    exact ⟨_, rfl⟩
  case isFalse =>
    refine ⟨s.flags, ?_⟩
    split
    case isTrue unsigned =>
      exact congrArg (fun w => Except.ok (s.setReg r w)) (toInt64_lowHalf unsigned)
    case isFalse =>
      split
      case isTrue fits => exact congrArg (fun w => Except.ok (s.setReg r w)) (toInt64_toInt32 fits)
      case isFalse => rfl

lemma exec_srcReg (s : Cpu) (src : Src Reg) : ∃ t, execAll Instr.exec s (srcReg src).1 = .ok t ∧
    t.regs (srcReg src).2 = s.src src ∧ s.Spares [scratch] t := by
  cases src with
  | reg r => exact ⟨s, rfl, rfl, .refl s⟩
  | imm value =>
    obtain ⟨flags, run⟩ := exec_moveConst s scratch value
    refine ⟨(s.setReg scratch value).setFlags flags, ?_, ?_,
      ((Cpu.Spares.refl s).setReg (.head _) value).setFlags flags⟩
    · exact (execAll_singleton _ _ _).trans run
    · simp [srcReg, Cpu.src]
  | slot index =>
    refine ⟨s.setReg scratch (s.load .word (slot index)), rfl, ?_,
      (Cpu.Spares.refl s).setReg (.head _) _⟩
    simp [srcReg, Cpu.src]

/-- A constant operand stands in the instruction, or is brought into the scratch register. -/
lemma exec_imm (s : Cpu) {value : Word} {near far : Instr} (op : Cpu → Word → Cpu)
    (onImm : near.exec s = .ok (op s value.toInt32.toInt64))
    (onReg : ∀ t, far.exec t = .ok (op t (t.regs scratch))) : ∃ t, s.Spares [scratch] t ∧
      execAll Instr.exec s (if Word.fitsInt32 value then [near]
        else [.moveConst scratch value, far]) = .ok (op t value) := by
  by_cases fits : Word.fitsInt32 value
  · refine ⟨s, .refl s, ?_⟩
    rw [if_pos fits, execAll_singleton, onImm, toInt64_toInt32 fits]
  · obtain ⟨flags, run⟩ := exec_moveConst s scratch value
    refine ⟨_, ((Cpu.Spares.refl s).setReg (.head _) value).setFlags flags, ?_⟩
    have moved : ((s.setReg scratch value).setFlags flags).regs scratch = value := by simp
    rw [if_neg fits, execAll_cons run, execAll_singleton, onReg, moved]

/-- An operation of the shared group. -/
lemma exec_alu (s : Cpu) (op : Alu) (dst : Reg) (src : Src Reg) : ∃ t, s.Spares [scratch] t ∧
    execAll Instr.exec s (alu op dst src) = .ok (t.alu op dst (s.src src)) := by
  cases src with
  | reg r | slot index => exact ⟨s, .refl s, rfl⟩
  | imm value => exact exec_imm s (fun t w => t.alu op dst w) rfl fun _ => rfl

lemma exec_multiply (s : Cpu) (dst : Reg) (src : Src Reg) : ∃ t, s.Spares [scratch] t ∧
    execAll Instr.exec s (multiply dst src) = .ok (t.multiply dst (t.regs dst) (s.src src)) := by
  cases src with
  | reg r | slot index => exact ⟨s, .refl s, rfl⟩
  | imm value => exact exec_imm s (fun t w => t.multiply dst (t.regs dst) w) rfl fun _ => rfl

/-! Shifts count modulo 64, on words as in the processor. -/

lemma toNat_smod (b : Word) : (b.toBitVec.smod 64).toNat = (Word.lowByte b).toNat % 64 := by
  have low : (Word.lowByte b).toNat = b.toBitVec.toNat % 256 := by
    rfl
  have signed : (b.toBitVec.smod 64).toInt = (b.toBitVec.toNat % 64 : Nat) := by
    have modulus : (64 : BitVec 64).toInt = 64 := by decide
    rw [BitVec.toInt_smod, modulus, Int.fmod_eq_emod_of_nonneg _ (by omega),
      BitVec.toInt_eq_toNat_bmod, Int.bmod_def]
    split <;> omega
  rw [BitVec.toInt_eq_toNat_cond] at signed
  split at signed <;> omega

/-- The shifts of words, by their direction. -/
def shiftOp (left : Bool) : IntOp := if left then .shl else .shr

lemma shifted_lowByte (left : Bool) (a b : Word) :
    shifted left a (Word.lowByte b) = (shiftOp left).eval a b := by
  apply Int64.toBitVec_inj.1
  cases left with
  | true =>
    show a.toBitVec <<< _ = (a <<< b).toBitVec
    rw [Int64.toBitVec_shiftLeft, BitVec.shiftLeft_eq', toNat_smod]
  | false =>
    show a.toBitVec.sshiftRight _ = (a >>> b).toBitVec
    rw [Int64.toBitVec_shiftRight, BitVec.sshiftRight_eq', toNat_smod]

/-- A constant count is reduced before it is encoded. -/
lemma shifted_lowByte_and (left : Bool) (a b : Word) :
    shifted left a (Word.lowByte (b &&& 63)) = shifted left a (Word.lowByte b) := by
  have same : (Word.lowByte (b &&& 63)).toNat % 64 = (Word.lowByte b).toNat % 64 := by
    have low (w : Word) : (Word.lowByte w).toNat = w.toBitVec.toNat % 256 := by
      rfl
    have mask : (b &&& 63).toBitVec.toNat = b.toBitVec.toNat % 64 := by
      exact Nat.and_two_pow_sub_one_eq_mod _ 6
    rw [low, low, mask]
    omega
  rw [shifted, shifted, same]

/-- A shift by a count that some code loads into `rcx`: what was there comes back. -/
lemma exec_shiftBy {left : Bool} {count : List Instr} {b : Word}
    (loads : ∀ t, s.Spares [.rax, scratch] t → ∃ u, execAll Instr.exec t count = .ok u ∧
      u.regs .rcx = b ∧ t.Spares [.rcx] u) :
    ∃ t, execAll Instr.exec s ([.movRR .rax dst, .movRR scratch .rcx] ++ count ++
        [if left then .shlCl .rax else .sarCl .rax, .movRR .rcx scratch, .movRR dst .rax]) = .ok t ∧
      t.regs dst = (shiftOp left).eval (s.regs dst) b ∧ s.Spares (dst :: scratchRegs) t := by
  let saved := (s.setReg .rax (s.regs dst)).setReg scratch (s.regs .rcx)
  obtain ⟨loaded, load, counts, spares⟩ :=
    loads saved (((Cpu.Spares.refl s).setReg (.head _) _).setReg (by simp) _)
  have value : loaded.regs .rax = s.regs dst := spares.regs .rax (by decide)
  have kept : loaded.regs scratch = s.regs .rcx := spares.regs scratch (by decide)
  let shifted := loaded.shift left .rax (Word.lowByte b)
  have result : shifted.regs .rax = (shiftOp left).eval (s.regs dst) b := by
    simp [shifted, shifted_lowByte, value]
  have restored : shifted.regs scratch = s.regs .rcx := by simp [shifted, scratch, ← kept]
  let last := (shifted.setReg .rcx (s.regs .rcx)).setReg dst (shifted.regs .rax)
  have run : execAll Instr.exec loaded [if left then .shlCl .rax else .sarCl .rax,
      .movRR .rcx scratch, .movRR dst .rax] = .ok last := by
    have shift : Instr.exec loaded (if left then .shlCl .rax else .sarCl .rax) = .ok shifted := by
      cases left <;> simp only [Instr.exec, counts, Bool.false_eq_true, if_true, if_false, shifted]
    rw [execAll_cons shift]
    show Except.ok ((shifted.setReg .rcx (shifted.regs scratch)).setReg dst (shifted.regs .rax)) = _
    rw [restored]
  refine ⟨last, ?_, ?_, ?_, ?_, ?_⟩
  · have save : execAll Instr.exec s [.movRR .rax dst, .movRR scratch .rcx] = .ok saved := rfl
    rw [List.append_assoc, execAll_append_of_eq save, execAll_append_of_eq load]
    exact run
  · simp [last, result]
  · intro r away
    simp only [scratchRegs, List.mem_cons, List.not_mem_nil, or_false, not_or] at away
    by_cases counter : r = .rcx
    · rw [counter] at away
      simp [last, counter, away.1]
    · have inSaved : saved.regs r = s.regs r := by simp [saved, away]
      have inLoaded : loaded.regs r = saved.regs r := spares.regs r (by simp [counter])
      simp [last, counter, shifted, away, inLoaded, inSaved]
  · exact spares.floats
  · exact spares.memory

lemma exec_shift (s : Cpu) (left : Bool) (dst : Reg) (offered : abi.Offers src) :
    ∃ t, execAll Instr.exec s (shift left dst src) = .ok t ∧
    t.regs dst = (shiftOp left).eval (s.regs dst) (s.src src) ∧
      s.Spares (dst :: scratchRegs) t := by
  cases src with
  | imm value =>
    refine ⟨s.shift left dst (Word.lowByte (value &&& 63)), ?_, ?_, ?_⟩
    · cases left <;> rfl
    · rw [Cpu.regs_shift, Function.update_self, shifted_lowByte_and, shifted_lowByte]
      rfl
    · exact ((Cpu.Spares.refl s).setReg (.head _) _).setFlags _
  | reg r =>
    apply exec_shiftBy
    intro t spares
    by_cases counter : r = .rcx
    · refine ⟨t, by rw [if_pos counter]; rfl, ?_, .refl t⟩
      rw [counter]
      exact spares.regs .rcx (by decide)
    · refine ⟨t.setReg .rcx
        (t.regs r), by rw [if_neg counter]; rfl, ?_, (Cpu.Spares.refl t).setReg (.head _) _⟩
      have away := Abi.ne_of_mem_intRegs offered
      exact spares.regs r (by simp [away])
  | slot index =>
    apply exec_shiftBy
    intro t spares
    refine ⟨t.setReg .rcx (t.load .word (slot index)), rfl, ?_,
      (Cpu.Spares.refl t).setReg (.head _) _⟩
    exact load_slot (spares.regs .rbp (by decide)) spares.memory index

/-- The code of an integer operation computes it. -/
lemma exec_intOp (s : Cpu) (op : IntOp) (allocated : dst ∈ abi.intRegs) (offered : abi.Offers src) :
    ∃ t, execAll Instr.exec s (intOp op dst src) = .ok t ∧ t.regs dst = op.eval (s.regs dst)
    (s.src src) ∧
      s.Spares (dst :: scratchRegs) t := by
  have away := Abi.ne_of_mem_intRegs allocated
  have wider : [scratch] ⊆ dst :: scratchRegs := by simp [scratchRegs]
  have shared {op : Alu} (ne : op ≠ .cmp) : ∃ t, execAll Instr.exec s (alu op dst src) = .ok t ∧
      t.regs dst = op.eval (s.regs dst) (s.src src) ∧ s.Spares (dst :: scratchRegs) t := by
    obtain ⟨t, spares, run⟩ := exec_alu s op dst src
    refine ⟨_, run, ?_, Cpu.Spares.alu (spares.mono wider) op (.head _) _⟩
    have kept : t.regs dst = s.regs dst := spares.regs dst (by simp [away])
    simp [Cpu.alu, ne, kept]
  cases op with
  | add | sub | and | or | xor => exact shared (by decide)
  | mul =>
    obtain ⟨t, spares, run⟩ := exec_multiply s dst src
    have kept : t.regs dst = s.regs dst := spares.regs dst (by simp [away])
    refine ⟨_, run, ?_, (spares.mono wider).trans ?_⟩
    · simp [Cpu.multiply, IntOp.eval, kept]
    · exact ((Cpu.Spares.refl t).setReg (.head _) _).setFlags _
  | shl => exact exec_shift s true dst offered
  | shr => exact exec_shift s false dst offered

/-! ### Comparisons -/

lemma sub_beq_zero (a b : Word) : (a - b == 0) = (a == b) := by
  grind

/-- The sign of a difference, turned over when it overflows. -/
lemma sign_sub (a b : Word) :
    (decide (a - b < 0) != decide ((a - b).toInt ≠ a.toInt - b.toInt)) = decide (a < b) := by
  have := a.toInt_lt
  have := a.le_toInt
  have := b.toInt_lt
  have := b.le_toInt
  have wrapped : (a - b).toInt = (a.toInt - b.toInt).bmod (2 ^ 64) := Int64.toInt_sub a b
  rw [Int.bmod_def] at wrapped
  rw [Bool.eq_iff_iff]
  simp only [Int64.lt_iff_toInt_lt, Int64.toInt_zero, bne_iff_ne, ne_eq, decide_eq_decide,
    decide_eq_true_eq]
  split at wrapped <;> omega

/-- After a comparison the condition of a relation holds exactly when the relation does. -/
lemma holds?_condOf_cmp (c : Comparison) (a b : Word) :
    (condOf c).holds? (Alu.flags .cmp a b) = some (c.evalWord a b) := by
  have less := sign_sub a b
  have equal := sub_beq_zero a b
  have notLess : (decide (a - b < 0) == decide ((a - b).toInt ≠ a.toInt - b.toInt)) = !decide
    (a < b) := by
    rw [← less, bne, Bool.not_not]
  cases c with
  | eq => exact congrArg some equal
  | ne => exact congrArg (fun x => some !x) equal
  | lt => exact congrArg some less
  | ge =>
    refine congrArg some (notLess.trans ?_)
    rw [← decide_not]
    exact decide_eq_decide.2 Int64.not_lt
  | le =>
    refine congrArg some ((congrArg₂ (· || ·) equal less).trans ?_)
    rw [Bool.eq_iff_iff]
    simp only [Bool.or_eq_true, beq_iff_eq, decide_eq_true_eq, Comparison.evalWord,
      Int64.le_iff_toInt_le, Int64.lt_iff_toInt_lt, ← Int64.toInt_inj]
    omega
  | gt =>
    refine congrArg some ((congrArg₂ (fun x y => !x && y) equal notLess).trans ?_)
    rw [Bool.eq_iff_iff]
    simp only [Bool.and_eq_true, Bool.not_eq_true', beq_eq_false_iff_ne, decide_eq_false_iff_not,
      decide_eq_true_eq, Comparison.evalWord, Int64.lt_iff_toInt_lt, ne_eq, ← Int64.toInt_inj]
    omega

/-! ### Division -/

/-- The sign is extended before a division. -/
lemma dividend_extended (s : Cpu) (a : Word) :
    ((s.setReg .rax a).setReg .rdx (if a < 0 then -1 else 0)).dividend = a.toInt := by
  have unsigned : a.toInt = (Word.toUnsigned a : Int).bmod (2 ^ 64) := BitVec.toInt_eq_toNat_bmod _
  have below : Word.toUnsigned a < 2 ^ 64 := UInt64.toNat_lt _
  have minusOne : (-1 : Word).toInt = -1 := by decide
  rw [Int.bmod_def] at unsigned
  simp only [Cpu.dividend, Cpu.setReg_regs, Function.update_self, ne_eq, reduceCtorEq,
    not_false_eq_true, Function.update_of_ne, Int64.lt_iff_toInt_lt, Int64.toInt_zero]
  split <;> split at unsigned <;> simp only [minusOne, Int64.toInt_zero] <;> omega

lemma divide_neg_one (remainder : Bool) (a : Word) :
    Word.divide remainder a (-1) = if remainder then 0 else -a := by
  have minusOne : (-1 : Word).toInt = -1 := by decide
  cases remainder with
  | true =>
    show a % (-1) = 0
    rw [← Int64.toInt_inj, Int64.toInt_mod, minusOne]
    simp
  | false =>
    show a / (-1) = -a
    rw [← Int64.toInt_inj, Int64.toInt_div, minusOne, Int64.toInt_neg]
    simp

/-- The code for a divisor other than 0 and -1. -/
def quotientCode (remainder : Bool) (dst divisor : Reg) : List Instr :=
  [.movRR .rax dst, .cqo, .idiv divisor, .movRR dst (if remainder then .rdx else .rax)]

def minusOneCode (remainder : Bool) (dst divisor : Reg) : List Instr :=
  [if remainder then .moveConst dst 0 else .neg dst, jumpOver (quotientCode remainder dst divisor)]

/-- The code for a divisor other than 0. -/
def nonzeroCode (remainder : Bool) (dst divisor : Reg) : List Instr :=
  [.aluRI .cmp divisor (-1), branchOver .ne (minusOneCode remainder dst divisor)] ++
    minusOneCode remainder dst divisor ++ quotientCode remainder dst divisor

lemma divide_eq (remainder : Bool) (dst : Reg) (src : Src Reg) (onZero : JumpTarget) :
    divide remainder dst src onZero =
      Step.plain ((srcReg src).1 ++ [.test (srcReg src).2 (srcReg src).2]) ++
        [Step.branch .e onZero] ++ Step.plain (nonzeroCode remainder dst (srcReg src).2) := rfl

/-- A division by a number other than 0 and -1. -/
lemma exec_quotientCode (s : Cpu) (remainder : Bool) (dst : Reg) (notZero : s.regs divisor ≠ 0)
    (notMinusOne : s.regs divisor ≠ -1) (away : divisor ∉ ([.rax, .rdx] : List Reg)) :
    ∃ t, execAll Instr.exec s (quotientCode remainder dst divisor) = .ok t ∧
      t.regs dst = Word.divide remainder (s.regs dst) (s.regs divisor) ∧
      s.Spares (dst :: scratchRegs) t := by
  let a := s.regs dst
  let b := s.regs divisor
  let extended := (s.setReg .rax a).setReg .rdx (if a < 0 then -1 else 0)
  let divided := ((extended.setReg .rax (a / b)).setReg .rdx (a % b)).setFlags .allOpen
  have kept : extended.regs divisor = b := by
    simp only [List.mem_cons, List.not_mem_nil, or_false, not_or] at away
    simp [extended, away, b]
  have divides : extended.divide b = .ok divided := by
    have quotient : extended.dividend.tdiv b.toInt = (a / b).toInt := by
      rw [dividend_extended, Int64.toInt_div_of_ne_right _ _ notMinusOne]
    have rest : extended.dividend.tmod b.toInt = (a % b).toInt := by
      rw [dividend_extended, Int64.toInt_mod]
    have fits : ¬ (b = 0 ∨ (a / b).toInt < -2 ^ 63 ∨ 2 ^ 63 ≤ (a / b).toInt) := by
      have := (a / b).toInt_lt
      have := (a / b).le_toInt
      rintro (zero | low | high)
      · exact notZero zero
      · omega
      · omega
    simp only [Cpu.divide, quotient, rest, if_neg fits, Int64.ofInt_toInt]
    rfl
  refine ⟨divided.setReg dst (divided.regs (if remainder then .rdx else .rax)), ?_, ?_, ?_⟩
  · have run : execAll Instr.exec s (quotientCode remainder dst divisor) =
      (extended.divide (extended.regs divisor)).bind fun t =>
          .ok (t.setReg dst (t.regs (if remainder then .rdx else .rax))) := rfl
    rw [run, kept, divides]
    rfl
  · cases remainder <;> simp [divided, Word.divide, a, b]
  · have scratches : s.Spares (dst :: scratchRegs) extended :=
      ((Cpu.Spares.refl s).setReg (by simp [scratchRegs]) _).setReg (by simp [scratchRegs]) _
    have results : s.Spares (dst :: scratchRegs) divided :=
      ((scratches.setReg (by simp [scratchRegs]) _).setReg (by simp [scratchRegs]) _).setFlags _
    exact results.setReg (.head _) _

/-! ### Code of an operation

The bytes of an operation stand somewhere in the code, with any displacement in the field of its
branch. -/

/-- The bytes of a piece, with a displacement in the field of its branch. -/
def linked (disp : Int32) (piece : Piece) : List UInt8 :=
  match piece.branch with
  | none => piece.bytes
  | some (field, _, _) => piece.bytes.take field ++ bytesOf disp ++ piece.bytes.drop (field + 4)

/-- The offset at which control leaves pieces: after their last byte, or where a branch to a target
leads. -/
def LeavesAt (start : Nat) (pieces : List Piece) (disp : Int32) (offset : Int) :
    Option JumpTarget → Prop
  | none => offset = start + (pieces.flatMap (linked disp)).length
  | some target =>
    ∃ site, (site, target) ∈ Piece.sites start pieces ∧ offset = site.offset + 4 + disp.toInt

/-- The code of an operation takes a state to one with a property.  It leaves by a branch to a
target, or at its end. -/
def Executes (abi : Abi) (addresses : Addresses) (op : Operation Reg Xmm) (s : Cpu)
    (exit : Option JumpTarget) (post : Cpu → Prop) : Prop :=
  ∀ pool, ∃ pieces t, (backend abi addresses).lower pool op = .ok (pieces, pool) ∧ post t ∧
    ∀ code start disp, Stand code start (pieces.flatMap (linked disp)) →
      ∃ offset, LeavesAt start pieces disp offset exit ∧ Runs code (start, s) (offset, t)

lemma flatMap_linked_plain (disp : Int32) (code : List Instr) :
    ((Step.plain code).map Step.piece).flatMap (linked disp) = encodeAll code :=
  Piece.flatMap_plain (fun _ => rfl) code

lemma Executes.of_plain {op : Operation Reg Xmm} {instrs : List Instr}
    (lowers : ∀ pool, (backend abi addresses).lower pool op =
      .ok ((Step.plain instrs).map Step.piece, pool)) (encodable : ∀ i ∈ instrs, i.Encodable)
    (run : execAll Instr.exec s instrs = .ok t) (holds : post t) :
    Executes abi addresses op s none post := by
  intro pool
  refine ⟨_, t, lowers pool, holds, fun code start disp stand => ⟨_, rfl, ?_⟩⟩
  rw [flatMap_linked_plain] at stand
  rw [flatMap_linked_plain, ← Int.natCast_add]
  exact Runs.block encodable stand run

lemma Executes.of_plain_branch {op : Operation Reg Xmm} (instrs : List Instr)
    (relation : Comparison) {target : JumpTarget}
    (lowers : ∀ pool, (backend abi addresses).lower pool op =
      .ok ((Step.plain instrs ++ [Step.branch (condOf relation) target]).map Step.piece, pool))
    (encodable : ∀ i ∈ instrs, i.Encodable) (run : execAll Instr.exec s instrs = .ok t)
    (test : (condOf relation).holds? t.flags = some holds) (post_t : post t) :
    Executes abi addresses op s (if holds then some target else none) post := by
  intro pool
  refine ⟨_, t, lowers pool, post_t, fun code start disp stand => ?_⟩
  rw [List.map_append, List.flatMap_append, flatMap_linked_plain, Stand.append] at stand
  refine ⟨_, ?_, (Runs.block encodable stand.1 run).trans (Runs.jcc stand.2 test)⟩
  cases holds with
  | true =>
    refine ⟨⟨start + codeLength instrs + 2, .rel32⟩, ?_, rfl⟩
    rw [List.map_append, Piece.sites_plain_append]
    exact List.mem_cons_self
  | false =>
    show _ = (start : Int) + _
    rw [List.map_append, List.flatMap_append, flatMap_linked_plain, List.length_append,
      ← Int.natCast_add, ← Nat.add_assoc]
    rfl

lemma Executes.branch {target : JumpTarget} (test : (condOf relation).holds? s.flags = some holds)
    (post_s : post s) :
    Executes abi addresses (.branch relation target) s (if holds then some target else none) post :=
  .of_plain_branch [] relation (fun _ => rfl) (List.forall_mem_nil _) rfl test post_s

/-! ### Encodings -/

lemma encodable_srcReg (src : Src Reg) : ∀ i ∈ (srcReg src).1, i.Encodable := by
  cases src with
  | slot index => exact List.forall_mem_singleton.2 (encodable_of_none rfl rfl rfl)
  | _ => simp [srcReg]

lemma encodable_alu (op : Alu) (dst : Reg) (src : Src Reg) : ∀ i ∈ alu op dst src, i.Encodable := by
  unfold alu
  split <;> [skip; skip; split] <;> simp <;> exact encodable_of_none rfl rfl rfl

lemma encodable_multiply (dst : Reg) (src : Src Reg) : ∀ i ∈ multiply dst src, i.Encodable := by
  unfold multiply
  split <;> [skip; skip; split] <;> simp <;> exact encodable_of_none rfl rfl rfl

lemma encodable_shift (left : Bool) (dst : Reg) (src : Src Reg) :
    ∀ i ∈ shift left dst src, i.Encodable := by
  unfold shift
  cases left <;> cases src <;> dsimp only <;> try split
  all_goals simp [Instr.Encodable, Instr.mem?, Instr.xmms, Instr.byteRegs, Mem.Valid, mem, slot]

lemma encodable_intOp (op : IntOp) (dst : Reg) (src : Src Reg) :
    ∀ i ∈ intOp op dst src, i.Encodable := by
  cases op with
  | mul => exact encodable_multiply dst src
  | shl | shr => exact encodable_shift _ dst src
  | _ => exact encodable_alu _ dst src

/-! ### Jumps inside the code of a division -/

lemma toInt_codeLength {code : List Instr} (short : codeLength code < 2 ^ 31) :
    (Int32.ofNat (codeLength code)).toInt = codeLength code :=
  Int32.toInt_ofNat_of_lt short

lemma length_regForm_le (wide : Bool) (opcode : List UInt8) (reg rm : UInt8) :
    (regForm wide opcode reg rm).length ≤ opcode.length + 2 := by
  have atMostOne (p : Prop) [Decidable p] (byte : UInt8) :
    (if p then [byte] else []).length ≤ 1 := by
    split <;> simp
  have short : (rex wide reg 0 rm).length ≤ 1 := atMostOne _ _
  rw [regForm, List.length_append, List.length_append, List.length_singleton]
  omega

lemma codeLength_quotientCode (remainder : Bool) (dst divisor : Reg) :
    codeLength (quotientCode remainder dst divisor) ≤ 11 := by
  have first := length_regForm_le true [0x89] dst.num Reg.rax.num
  have division := length_regForm_le true [0xF7] 7 divisor.num
  have last := length_regForm_le true [0x89] (if remainder then Reg.rdx else .rax).num dst.num
  simp only [quotientCode, codeLength_cons, Instr.encode]
  simp only [codeLength, encodeAll, List.flatMap_nil, List.length_nil, List.length_cons] at *
  omega

lemma codeLength_minusOneCode (remainder : Bool) (dst divisor : Reg) :
    codeLength (minusOneCode remainder dst divisor) ≤ 8 := by
  have negation := length_regForm_le true [0xF7] 3 dst.num
  have clear := length_regForm_le false [0x31] dst.num dst.num
  have jump (disp : Int32) : (Instr.jmp disp).encode.length = 5 := rfl
  rw [minusOneCode, codeLength_cons, codeLength_cons, jumpOver, jump]
  cases remainder <;> simp [Instr.moveConst, Instr.encode, codeLength, encodeAll] at * <;> omega

/-- A jump over instructions ends after them. -/
lemma Runs.jumpOver {code : List UInt8} {start : Nat} {skipped : List Instr} (s : Cpu)
    (short : codeLength skipped < 2 ^ 31) (stand : Stand code start (jumpOver skipped).encode) :
    Runs code (start, s) ((start + codeLength (jumpOver skipped :: skipped) : Nat), s) := by
  have run := Runs.jmp (s := s) stand
  rw [toInt_codeLength short, ← Int.natCast_add, Nat.add_assoc] at run
  rwa [codeLength_cons]

/-- A divisor of -1 goes its own way. -/
lemma exec_minusOne (s : Cpu) (remainder : Bool) (dst : Reg) :
    ∃ t, (if remainder then Instr.moveConst dst 0 else .neg dst).exec s = .ok t ∧
      t.regs dst = Word.divide remainder (s.regs dst) (-1) ∧ s.Spares (dst :: scratchRegs) t := by
  cases remainder with
  | true =>
    obtain ⟨flags, run⟩ := exec_moveConst s dst 0
    refine ⟨_, run, ?_, ((Cpu.Spares.refl s).setReg (.head _) 0).setFlags flags⟩
    simp [divide_neg_one]
  | false =>
    refine ⟨_, rfl, ?_, ((Cpu.Spares.refl s).setReg (.head _) _).setFlags _⟩
    simp [divide_neg_one]

/-- A division by a number other than 0 is executed to its end. -/
lemma exists_runs_nonzeroCode (s : Cpu) (remainder : Bool) (dst : Reg)
    (notZero : s.regs divisor ≠ 0) (away : divisor ∉ ([.rax, .rdx] : List Reg)) :
    ∃ t, t.regs dst = Word.divide remainder (s.regs dst) (s.regs divisor) ∧
    s.Spares (dst :: scratchRegs) t ∧
      ∀ code start, Stand code start (encodeAll (nonzeroCode remainder dst divisor)) →
        Runs code (start, s) ((start + codeLength (nonzeroCode remainder dst divisor) : Nat),
          t) := by
  let compare : Instr := .aluRI .cmp divisor (-1)
  let special : Instr := if remainder then .moveConst dst 0 else .neg dst
  let quotient := quotientCode remainder dst divisor
  let branch := branchOver .ne (minusOneCode remainder dst divisor)
  let compared := s.setFlags (Alu.flags .cmp (s.regs divisor) (-1))
  have unchanged : s.Spares (dst :: scratchRegs) compared := (Cpu.Spares.refl s).setFlags _
  have test : Cond.ne.holds? compared.flags = some (s.regs divisor != -1) :=
    holds?_condOf_cmp .ne (s.regs divisor) (-1)
  have bytes : encodeAll (nonzeroCode remainder dst divisor) =
      compare.encode ++ (branch.encode ++
        (special.encode ++ ((jumpOver quotient).encode ++ encodeAll quotient))) := rfl
  have length : codeLength (nonzeroCode remainder dst divisor) =
      compare.encode.length +
        (branch.encode.length + codeLength (special :: jumpOver quotient :: quotient)) := by
    rw [codeLength, bytes]
    simp only [List.length_append, codeLength, encodeAll_cons]
  have toBranch {code : List UInt8} {start : Nat} (stand : Stand code start compare.encode) :
      Runs code (start, s) ((start + compare.encode.length : Nat), compared) :=
    Runs.exec (encodable_of_none rfl rfl rfl) stand rfl
  by_cases minusOne : s.regs divisor = -1
  · obtain ⟨t, run, result, spares⟩ := exec_minusOne compared remainder dst
    refine ⟨t, minusOne ▸ result, unchanged.trans spares, fun code start stand => ?_⟩
    simp only [bytes, Stand.append] at stand
    obtain ⟨atCompare, atBranch, atSpecial, atJump, -⟩ := stand
    have notTaken : (s.regs divisor != -1) = false := by simp [minusOne]
    have encodable : special.Encodable := by
      cases remainder
      · exact encodable_of_none rfl rfl rfl
      · exact encodable_moveConst dst 0
    have short : codeLength quotient < 2 ^ 31 := Nat.lt_of_le_of_lt (codeLength_quotientCode ..)
      (by decide)
    have branched := Runs.jcc atBranch (notTaken ▸ test)
    have jumped := (Runs.exec encodable atSpecial run).trans (Runs.jumpOver t short atJump)
    rw [length, codeLength_cons, ← Nat.add_assoc, ← Nat.add_assoc, ← Nat.add_assoc]
    exact (toBranch atCompare).trans (branched.trans jumped)
  · obtain ⟨t, run, result, spares⟩ :=
      exec_quotientCode compared remainder dst notZero minusOne away
    refine ⟨t, result, unchanged.trans spares, fun code start stand => ?_⟩
    simp only [bytes, Stand.append] at stand
    obtain ⟨atCompare, atBranch, -, -, atQuotient⟩ := stand
    have taken : (s.regs divisor != -1) = true := by simp [minusOne]
    have encodable : ∀ i ∈ quotient, i.Encodable := by
      simp [quotient, quotientCode, Instr.Encodable, Instr.mem?, Instr.xmms, Instr.byteRegs]
    have short : codeLength (minusOneCode remainder dst divisor) < 2 ^ 31 :=
      Nat.lt_of_le_of_lt (codeLength_minusOneCode ..) (by decide)
    have skipped : codeLength (minusOneCode remainder dst divisor) =
        special.encode.length + (jumpOver quotient).encode.length := by
      rw [minusOneCode, codeLength_cons, codeLength_cons]
      rfl
    have branched := Runs.jcc atBranch (taken ▸ test)
    rw [if_pos rfl, toInt_codeLength short, skipped, ← Int.natCast_add, ← Nat.add_assoc] at branched
    have divided := Runs.block encodable atQuotient run
    rw [length, codeLength_cons, codeLength_cons]
    simp only [← Nat.add_assoc]
    exact (toBranch atCompare).trans (branched.trans divided)

lemma flatMap_linked_divide (disp : Int32) (remainder : Bool) (dst : Reg) (src : Src Reg)
    (onZero : JumpTarget) :
    ((divide remainder dst src onZero).map Step.piece).flatMap (linked disp) =
      encodeAll ((srcReg src).1 ++ [.test (srcReg src).2 (srcReg src).2]) ++
        ((Instr.jcc .e disp).encode ++ encodeAll (nonzeroCode remainder dst (srcReg src).2)) := by
  rw [divide_eq, List.append_assoc, List.map_append, List.flatMap_append, flatMap_linked_plain,
    List.map_append, List.flatMap_append, flatMap_linked_plain]
  rfl

/-- The operand of a division is not where the division puts its result. -/
lemma srcReg_not_mem (offered : abi.Offers src) : (srcReg src).2 ∉ ([.rax, .rdx] : List Reg) := by
  cases src with
  | reg r =>
    have away := Abi.ne_of_mem_intRegs offered
    simp [srcReg, away]
  | imm value | slot index => simp [srcReg, scratch]

/-- A division leaves by its branch exactly when the divisor is 0. -/
lemma Executes.divide (s : Cpu) (remainder : Bool) (onZero : JumpTarget)
    (allocated : dst ∈ abi.intRegs) (offered : abi.Offers src) :
    Executes abi addresses (.divide remainder dst src onZero) s
      (if s.src src = 0 then some onZero else none) fun t =>
      (s.src src ≠ 0 → t.regs dst = Word.divide remainder (s.regs dst) (s.src src)) ∧
        Keeps abi (if s.src src = 0 then [] else [dst]) s t := by
  let divisor := (srcReg src).2
  let lead := (srcReg src).1 ++ [.test divisor divisor]
  obtain ⟨loaded, load, value, spares⟩ := exec_srcReg s src
  let tested := loaded.setFlags (Alu.flags .and (s.src src) (s.src src))
  have run : execAll Instr.exec s lead = .ok tested := by
    rw [execAll_append_of_eq load]
    exact congrArg (fun w => Except.ok (loaded.setFlags (Alu.flags .and w w))) value
  have test : Cond.e.holds? tested.flags = some (s.src src == 0) := by
    have same : s.src src &&& s.src src = s.src src := Int64.and_self
    exact congrArg (fun w : Word => some (w == 0)) same
  have encodable : ∀ i ∈ lead, i.Encodable := by
    intro i mem
    rcases List.mem_append.1 mem with inLoad | isTest
    · exact encodable_srcReg src i inLoad
    · rw [List.mem_singleton.1 isTest]
      exact encodable_of_none rfl rfl rfl
  have kept : tested.regs dst = s.regs dst := by
    have away := Abi.ne_of_mem_intRegs allocated
    exact spares.regs dst (by simp [away])
  intro pool
  by_cases zero : s.src src = 0
  · have taken : (s.src src == 0) = true := by simp [zero]
    refine ⟨(X64.divide remainder dst src onZero).map Step.piece, tested, rfl,
      ⟨fun notZero => absurd zero notZero, ?_⟩, fun code start disp stand => ?_⟩
    · rw [if_pos zero]
      exact Keeps.of_spares (by simp) ((spares.setFlags _).mono (by simp [scratchRegs]))
    · rw [flatMap_linked_divide, Stand.append, Stand.append] at stand
      have branched := Runs.jcc stand.2.1 (taken ▸ test)
      have field : ((start + codeLength lead + (Instr.jcc .e disp).encode.length : Nat) : Int) =
          (start + codeLength lead + 2 : Nat) + 4 := rfl
      refine ⟨_, ?_, (Runs.block encodable stand.1 run).trans branched⟩
      rw [if_pos zero]
      refine ⟨⟨start + codeLength lead + 2, .rel32⟩, ?_, congrArg (· + disp.toInt) field⟩
      rw [divide_eq, List.append_assoc, List.map_append, Piece.sites_plain_append]
      exact List.mem_cons_self
  · have notTaken : (s.src src == 0) = false := by simp [zero]
    have nonzero : tested.regs divisor ≠ 0 := fun h => zero (value ▸ h)
    obtain ⟨t, result, changes, runs⟩ := exists_runs_nonzeroCode tested remainder dst nonzero
      (srcReg_not_mem offered)
    refine ⟨(X64.divide remainder dst src onZero).map Step.piece, t, rfl, ⟨fun _ => ?_, ?_⟩,
      fun code start disp stand => ⟨start + (encodeAll lead ++ ((Instr.jcc .e disp).encode ++
        encodeAll (nonzeroCode remainder dst divisor))).length, ?_, ?_⟩⟩
    · rw [result, kept]
      exact congrArg _ value
    · rw [if_neg zero]
      exact Keeps.of_spares (by simp [allocated])
        (((spares.setFlags _).mono (by simp [scratchRegs])).trans changes)
    · rw [if_neg zero, LeavesAt, flatMap_linked_divide]
    · rw [flatMap_linked_divide, Stand.append, Stand.append] at stand
      have branched := Runs.jcc stand.2.1 (notTaken ▸ test)
      rw [List.length_append, List.length_append, ← Int.natCast_add, ← Nat.add_assoc,
        ← Nat.add_assoc]
      exact (Runs.block encodable stand.1 run).trans (branched.trans (runs _ _ stand.2.2))

/-! ### Integer operations -/

/-- A truth value is zero-extended from the byte that the condition sets. -/
lemma lowByte_withLowByte (w : Word) (byte : UInt8) : Word.lowByte (withLowByte w byte) = byte := by
  have cleared : (~~~(0xFF : UInt64)).toUInt8 = 0 := by decide
  show ((w.toUInt64 &&& ~~~0xFF) ||| byte.toUInt64).toUInt8 = byte
  rw [UInt64.toUInt8_or, UInt64.toUInt8_and, cleared, UInt8.and_zero, UInt8.zero_or,
    UInt8.toUInt8_toUInt64]

/-- The truth value of a comparison. -/
lemma Executes.setCond (allocated : dst ∈ abi.intRegs)
    (test : (condOf relation).holds? s.flags = some holds) :
    Executes abi addresses (.setCond dst relation) s none fun t =>
      t.regs dst = Word.ofBool holds ∧ Keeps abi [dst] s t := by
  let set := s.setReg .rax (withLowByte (s.regs .rax) (if holds then 1 else 0))
  have sets : Instr.exec s (.setcc (condOf relation) .rax) = .ok set := by
    rw [Instr.exec, Cpu.test, test]
    rfl
  have extended : (Word.lowByte (set.regs .rax)).toUInt64.toInt64 = Word.ofBool holds := by
    rw [Cpu.setReg_regs, Function.update_self, lowByte_withLowByte]
    cases holds <;> rfl
  have run : execAll Instr.exec s [.setcc (condOf relation) .rax, .movzxReg dst .rax] =
      .ok (set.setReg dst (Word.ofBool holds)) := by
    rw [execAll_cons sets]
    exact congrArg (fun w => Except.ok (set.setReg dst w)) extended
  refine .of_plain (fun _ => rfl) ?_ run ⟨?_, ?_⟩
  · simp [Instr.Encodable, Instr.mem?, Instr.xmms, Instr.byteRegs]
  · simp
  · exact Keeps.of_spares (by simp [allocated])
      (((Cpu.Spares.refl s).setReg (by simp [scratchRegs]) _).setReg (.head _) _)

/-- A comparison leaves the flags of its operands. -/
lemma exists_exec_compare (s : Cpu) (allocated : dst ∈ abi.intRegs) (src : Src Reg) :
    ∃ t, execAll Instr.exec s (alu .cmp dst src) = .ok t ∧ t.flags = Alu.flags .cmp (s.regs dst)
    (s.src src) ∧
      Keeps abi [] s t := by
  obtain ⟨t, spares, run⟩ := exec_alu s .cmp dst src
  have away := Abi.ne_of_mem_intRegs allocated
  have kept : t.regs dst = s.regs dst := spares.regs dst (by simp [away])
  refine ⟨_, run, ?_, ?_⟩
  · rw [← kept]
    rfl
  · exact Keeps.of_spares (by simp) ((spares.setFlags _).mono (by simp [scratchRegs]))

/-- **Integer operations compute what they mean.**  From every state and under both calling
conventions:

* an operation leaves its value in the destination;
* a division leaves by its branch exactly when the divisor is 0, and otherwise leaves the wrapped
  quotient or remainder without a division that traps;
* after a comparison the truth value of each relation can be set, and the branch on a relation is
  taken exactly when the relation holds.

No other register that can be allocated changes, and the stack pointer, the frame pointer, the slots
and memory stay as they are.  A slot is the word at its place below the frame pointer. -/
theorem executes_integer_operations (addresses : Addresses) (s : Cpu)
    (allocated : dst ∈ abi.intRegs) (offered : abi.Offers src) :
    (∀ op, Executes abi addresses (.int op dst src) s none fun t =>
      t.regs dst = op.eval (s.regs dst) (s.src src) ∧ Keeps abi [dst] s t) ∧
    (∀ remainder onZero,
      Executes abi addresses (.divide remainder dst src onZero) s (if s.src src = 0 then some onZero
        else none) fun t =>
        (s.src src ≠ 0 → t.regs dst = Word.divide remainder (s.regs dst) (s.src src)) ∧
          Keeps abi (if s.src src = 0 then [] else [dst]) s t) ∧
    (Executes abi addresses (.compare dst src) s none fun t => Keeps abi [] s t ∧
      ∀ relation : Comparison,
        (∀ r ∈ abi.intRegs, Executes abi addresses (.setCond r relation) t none fun u =>
        u.regs r = Word.ofBool (relation.evalWord (s.regs dst) (s.src src)) ∧ Keeps abi [r] t u) ∧
      ∀ target, Executes abi addresses (.branch relation target) t
        (if relation.evalWord (s.regs dst) (s.src src) then some target else none)
          (Keeps abi [] t)) ∧
    ∀ index, index + 8 ≤ 2 ^ 28 →
      s.src (.slot index) = s.read .word (s.regs .rbp - 56 - 8 * (Word.ofNat index + 1)) := by
  refine ⟨fun op => ?_, fun remainder onZero => .divide s remainder onZero allocated offered, ?_,
    fun index reached => ?_⟩
  · obtain ⟨t, run, result, spares⟩ := exec_intOp s op allocated offered
    exact .of_plain (fun _ => rfl) (encodable_intOp op dst src) run
      ⟨result, Keeps.of_spares (by simp [allocated]) spares⟩
  · obtain ⟨t, run, flags, keeps⟩ := exists_exec_compare s allocated src
    refine .of_plain (fun _ => rfl) (encodable_alu .cmp dst src) run ⟨keeps, fun relation => ?_⟩
    have test : (condOf relation).holds? t.flags =
      some (relation.evalWord (s.regs dst) (s.src src)) :=
      flags ▸ holds?_condOf_cmp relation (s.regs dst) (s.src src)
    exact ⟨fun r mem => .setCond mem test,
      fun target => .branch test (Keeps.of_spares (by simp) (.refl t))⟩
  · rw [Cpu.src, Cpu.load, address_slot s reached]

/-- The least word divided by -1, where the division instruction would trap. -/
theorem executes_integer_operations_least :
    let s : Cpu :=
      ⟨fun r => if r = .rcx then Int64.minValue else -1, fun _ => 0, .allOpen, fun _ => 0⟩
    .rcx ∈ Abi.win64.intRegs ∧ Abi.win64.Offers (.reg .rbx) ∧
      Word.divide false (s.regs .rcx) (s.src (.reg .rbx)) = Int64.minValue ∧
      Executes .win64 {} (.divide false .rcx (.reg .rbx) (.fault .divZero)) s none fun t =>
        (s.src (.reg .rbx) ≠ 0 → t.regs .rcx = Word.divide false (s.regs .rcx)
          (s.src (.reg .rbx))) ∧
          Keeps .win64 [.rcx] s t := by
  intro s
  have allocated : .rcx ∈ Abi.win64.intRegs := by decide
  have offered : Abi.win64.Offers (.reg .rbx) := show Reg.rbx ∈ Abi.win64.intRegs by decide
  have minusOne : s.src (.reg .rbx) ≠ 0 := by decide
  refine ⟨allocated, offered, by decide, ?_⟩
  have divides := (executes_integer_operations {} s allocated offered).2.1 false (.fault .divZero)
  rwa [if_neg minusOne, if_neg minusOne] at divides

end StackMachine.X64
