import StackMachine.Proofs.A64.Constants
import StackMachine.Proofs.A64.Literals
import StackMachine.Proofs.X64.Selection

/-!
# Integer operations on AArch64

The code that an integer operation is lowered to computes the operation, from every state that holds
the literal pool of the finished method: an operation may pool a constant, and operations after it
may pool more (`Executes`).

A constant is a 12-bit immediate, perhaps of the opposite operation; or it is put together in a
scratch register; or it is loaded from the pool.  A divisor of 0 is no special case of the division
instruction but leaves by a branch.  In each case no register that can be allocated changes but the
destination, and memory stays as it is (`Keeps`).
-/

namespace StackMachine.A64

open Native

variable {count index : Nat} {i : Instr} {target : JumpTarget} {post : Cpu → Prop}
  {relation : Comparison}

/-! ### Shifts -/

lemma shifted_zero (a : Word) : shifted true a 0 = a := by
  apply Int64.toBitVec_inj.1
  exact BitVec.shiftLeft_zero _

/-- A constant shift to the left moves the low bits up. -/
lemma moveField_left (a : Word) (small : count < 64) :
    moveField false a ((64 - count) % 64) (63 - count) = shifted true a count := by
  apply Int64.toBitVec_inj.1
  by_cases zero : count = 0
  · subst zero
    show ((a.toBitVec >>> 0).setWidth 64).setWidth 64 = a.toBitVec <<< 0
    simp
  · have rotate : (64 - count) % 64 = 64 - count := Nat.mod_eq_of_lt (by omega)
    have above : ¬64 - count ≤ 63 - count := by omega
    have back : 64 - (64 - count) = count := by omega
    have width : 63 - count + 1 = 64 - count := by omega
    have moved : (moveField false a ((64 - count) % 64) (63 - count)).toBitVec =
        (a.toBitVec.setWidth (64 - count)).setWidth 64 <<< count := by
      rw [moveField, rotate, if_neg above, back, width]
      rfl
    rw [moved]
    refine BitVec.eq_of_getLsbD_eq fun i inWord => ?_
    show _ = (a.toBitVec <<< count).getLsbD i
    rw [BitVec.getLsbD_shiftLeft, BitVec.getLsbD_shiftLeft, BitVec.getLsbD_setWidth,
      BitVec.getLsbD_setWidth]
    by_cases below : i < count
    · simp [below]
    · have inside : i - count < 64 ∧ i - count < 64 - count := by omega
      simp [inside]

/-- A constant shift to the right moves the high bits down, with their sign. -/
lemma moveField_right (a : Word) (small : count < 64) :
    moveField true a count 63 = shifted false a count := by
  have low : count ≤ 63 := by omega
  have width : 63 - count + 1 = 64 - count := by omega
  apply Int64.toBitVec_inj.1
  have moved : (moveField true a count 63).toBitVec =
    ((a.toBitVec >>> count).setWidth (64 - count)).signExtend 64 := by
    rw [moveField, if_pos low, width]
    rfl
  rw [moved]
  refine BitVec.eq_of_getLsbD_eq fun i inWord => ?_
  show _ = (a.toBitVec.sshiftRight count).getLsbD i
  rw [BitVec.getLsbD_signExtend, BitVec.getLsbD_sshiftRight, BitVec.getLsbD_setWidth,
    BitVec.getLsbD_ushiftRight, BitVec.msb_eq_getLsbD_last, BitVec.msb_eq_getLsbD_last,
      BitVec.getLsbD_setWidth, BitVec.getLsbD_ushiftRight]
  by_cases inside : i < 64 - count
  · have below : count + i < 64 := by omega
    simp [inside, below, inWord]
  · have above : ¬count + i < 64 := by omega
    have last : count + (64 - count - 1) = 63 := by omega
    simp [inside, above, inWord, last, small, Nat.not_le.2 inWord]

/-! ### Operands -/

/-- The integer registers that are allocated. -/
def intRegs : List Reg := (backend).ints.primaryOrder ++ (backend).ints.auxOrder

/-- An operand is an immediate, a slot that an access can reach, or in an allocated register. -/
def Offers : Src Reg → Prop
  | .reg r => r ∈ intRegs
  | .imm _ => True
  | .slot index => index < maxFrameSlots

/-- The value of an operand.  A slot is the word at its place above the stack pointer. -/
def Cpu.src (s : Cpu) : Src Reg → Word
  | .reg r => s.regs r
  | .imm value => value
  | .slot index => s.memory.readWord (s.regs .sp + Word.ofNat (8 * index))

/-- The registers that are never allocated and may be overwritten. -/
def scratchRegs : List Reg := [valueScratch, addrScratch, scratch0, scratch1]

/-- The pool of a finished method is in memory, at the address that the frame holds. -/
def Cpu.HoldsPool (s : Cpu) (final : Literals) : Prop :=
  ∀ index word, final.contents[index]? = some word →
    s.memory.readWord (s.src (.slot FrameSlot.literals.index) + Word.ofNat (8 * index)) =
      word.toInt64

variable {addresses : Addresses} {s t u : Cpu} {dst r : Reg} {src : Src Reg} {value : Word}
  {l final : Literals}

/-- Allocated registers are no scratch registers, and neither the stack pointer nor the frame
pointer. -/
lemma not_mem_of_mem_intRegs (mem : r ∈ intRegs) : r ∉ .sp :: .fp :: scratchRegs := by
  revert r
  decide

lemma ne_of_mem_intRegs (mem : r ∈ intRegs) : r ≠ .sp ∧ r ≠ .fp ∧ r ≠ valueScratch ∧
    r ≠ addrScratch ∧
    r ≠ scratch0 ∧ r ≠ scratch1 := by
  revert r
  decide

lemma ne_zr_of_mem_intRegs (mem : r ∈ intRegs) : r ≠ Reg.zr := fun same =>
  not_mem_of_mem_intRegs mem (same ▸ .head _)

/-! ### What stays -/

/-- Two states differ at most in the registers that are written, in scratch registers and in the
flags. -/
structure Keeps (written : List Reg) (s t : Cpu) : Prop where
  allocated : ∀ r ∈ intRegs, r ∉ written → t.regs r = s.regs r
  floats : t.doubles = s.doubles
  stackPointer : t.regs .sp = s.regs .sp
  framePointer : t.regs .fp = s.regs .fp
  slots : ∀ index, t.src (.slot index) = s.src (.slot index)
  memory : t.memory = s.memory

/-- Code that writes allocated registers, and scratch registers besides. -/
lemma Keeps.of_spares {written : List Reg} (allocated : ∀ r ∈ written, r ∈ intRegs)
    (spares : s.Spares (written ++ scratchRegs) t) : Keeps written s t := by
  have pointer {r : Reg} (mem : r ∈ [Reg.sp, .fp]) : t.regs r = s.regs r := by
    apply spares.regs
    intro inCode
    rcases List.mem_append.1 inCode with own | isScratch
    · have other := ne_of_mem_intRegs (allocated r own)
      simp [other.1, other.2.1] at mem
    · have apart : ∀ r ∈ [Reg.sp, .fp], r ∉ scratchRegs := by decide
      exact apart r mem isScratch
  constructor
  · intro r mem other
    have noScratch := not_mem_of_mem_intRegs mem
    apply spares.regs
    simp only [List.mem_append, not_or]
    exact ⟨other, fun isScratch => noScratch (.tail _ (.tail _ isScratch))⟩
  · exact spares.floats
  · exact pointer (by simp)
  · exact pointer (by simp)
  · intro index
    rw [Cpu.src, Cpu.src, pointer (by simp), spares.memory]
    rfl
  · exact spares.memory

/-! ### Straight code

Each part of an operation without branches is executed symbolically. -/

/-- The offset of an access with a 12-bit field. -/
lemma slotOffset_field (reached : index < maxFrameSlots) :
    8 * ((slotOffset index).toNat / 8 % 2 ^ 12) = 8 * index := by
  have small : index < 4095 := reached
  have value : (slotOffset index).toNat = 8 * index := by
    rw [slotOffset, UInt32.toNat_mul, UInt32.toNat_ofNat']
    show 8 * (index % 2 ^ 32) % 2 ^ 32 = 8 * index
    omega
  rw [value]
  omega

/-- A load of a word at a place above a base register. -/
lemma exec_ldr (s : Cpu) (rn : Reg) (general : dst ≠ Reg.zr) (reached : index < maxFrameSlots) :
    (Instr.ldr dst rn (slotOffset index)).exec s =
      some (s.setReg dst (s.memory.readWord (s.regs rn + Word.ofNat (8 * index)))) := by
  rw [Instr.exec_eq rfl, slotOffset_field reached, Form.exec, if_pos rfl, Cpu.put_of_ne general]

lemma exec_loadPoolBase (s : Cpu) :
    loadPoolBase.exec s = some (s.setReg addrScratch (s.src (.slot FrameSlot.literals.index))) :=
  exec_ldr s .sp (by decide) (by decide)

/-- A constant comes from the pool if it is wide and there is room. -/
lemma loadImm_cases (dst : Reg) (value : Word) (l : Literals) :
    ((moveConstLength value ≤ 2 ∨ l.ints.place? value.toUInt64 = none) ∧
        loadImm dst value l = (moveConst dst value, l)) ∨
      ∃ index ints, l.ints.place? value.toUInt64 = some (index, ints) ∧ loadImm dst value l =
          ([loadPoolBase, .ldr dst addrScratch (slotOffset (l.doubles.capacity + index))],
            { l with ints }) := by
  unfold loadImm
  by_cases wide : 2 < moveConstLength value
  · rw [if_pos wide]
    have pooled := poolInt?_eq value l
    have run (f : Option Nat → Select (List Instr)) : (poolInt? value >>= f) l =
        f (poolInt? value l).1 (poolInt? value l).2 := rfl
    rw [run]
    cases placed : l.ints.place? value.toUInt64 with
    | none =>
      rw [placed] at pooled
      rw [pooled]
      exact .inl ⟨.inr rfl, rfl⟩
    | some r =>
      rw [placed] at pooled
      rw [pooled]
      exact .inr ⟨r.1, r.2, rfl, rfl⟩
  · rw [if_neg wide]
    exact .inl ⟨.inl (Nat.le_of_not_lt wide), rfl⟩

/-- A constant is loaded, perhaps from the pool of the finished method. -/
lemma exec_loadImm (general : dst ≠ Reg.zr) (reached : Leads addresses {} l) (s : Cpu)
    (value : Word) (leads : Leads addresses (loadImm dst value l).2 final)
    (pool : s.HoldsPool final) :
    ∃ t, execAll Instr.exec s (loadImm dst value l).1 = some t ∧ t.regs dst = value ∧
    s.Spares [dst, addrScratch] t := by
  rcases loadImm_cases dst value l with ⟨-, direct⟩ | ⟨index, ints, placed, pooled⟩
  · rw [direct]
    exact ⟨_, exec_moveConst general value s, by simp, (Cpu.Spares.refl s).setReg (.head _) _⟩
  · rw [pooled] at leads ⊢
    obtain ⟨stands, inReach⟩ := contents_of_place? reached placed leads
    let base := s.src (.slot FrameSlot.literals.index)
    have read : (s.setReg addrScratch base).memory.readWord
        ((s.setReg addrScratch base).regs addrScratch + Word.ofNat
          (8 * (l.doubles.capacity + index))) = value := by
      rw [Cpu.setReg_regs, Function.update_self]
      exact pool _ _ stands
    have load := exec_ldr (s.setReg addrScratch base) addrScratch general inReach
    rw [read] at load
    refine ⟨(s.setReg addrScratch base).setReg dst value, ?_, by simp,
      ((Cpu.Spares.refl s).setReg (by simp) _).setReg (.head _) _⟩
    rw [execAll_cons (exec_loadPoolBase s), execAll_singleton, load]

lemma exec_srcReg (offered : Offers src) (reached : Leads addresses {} l) (s : Cpu)
    (leads : Leads addresses (srcReg src l).2 final) (pool : s.HoldsPool final) :
    ∃ t, execAll Instr.exec s (srcReg src l).1.1 = some t ∧ t.get (srcReg src l).1.2 = s.src src ∧
      s.Spares [valueScratch, addrScratch] t := by
  cases src with
  | reg r => exact ⟨s, rfl, Cpu.get_of_ne (ne_zr_of_mem_intRegs offered), .refl s⟩
  | slot index =>
    refine ⟨_, ?_, ?_, (Cpu.Spares.refl s).setReg (.head _) (s.src (.slot index))⟩
    · show execAll Instr.exec s [.ldr valueScratch .sp (slotOffset index)] = _
      rw [execAll_singleton, exec_ldr s .sp (by decide) offered]
      rfl
    · show Cpu.get _ valueScratch = _
      rw [Cpu.get_of_ne (by decide), Cpu.setReg_regs, Function.update_self]
  | imm value =>
    by_cases zero : value = 0
    · have none : srcReg (.imm value) l = (([], Reg.zr), l) := by
        simp only [srcReg, if_pos zero]
        rfl
      rw [none]
      exact ⟨s, rfl, (Cpu.get_zr s).trans zero.symm, .refl s⟩
    · have loaded : srcReg (.imm value) l =
          (((loadImm valueScratch value l).1, valueScratch), (loadImm valueScratch value l).2) := by
        simp only [srcReg, if_neg zero]
        rfl
      rw [loaded] at leads ⊢
      obtain ⟨t, run, result, spares⟩ := exec_loadImm (by decide) reached s value leads pool
      refine ⟨t, run, ?_, spares⟩
      show Cpu.get _ valueScratch = _
      rw [Cpu.get_of_ne (by decide), result]
      rfl

/-! Shifts count modulo 64, on words as in the processor. -/

lemma shifted_eq_eval (left : Bool) (a b : Word) :
    shifted left a (Word.toUnsigned b % 64) = (X64.shiftOp left).eval a b := by
  have low : (Word.lowByte b).toNat = Word.toUnsigned b % 256 := UInt64.toNat_toUInt8 _
  have count : Word.toUnsigned b % 64 = (Word.lowByte b).toNat % 64 := by omega
  rw [count]
  exact X64.shifted_lowByte left a b

/-- A constant count is reduced before it is encoded. -/
lemma shifted_imm (left : Bool) (a b : Word) :
    shifted left a ((Word.lowByte (b &&& 63)).toNat % 2 ^ 6) = (X64.shiftOp left).eval a b :=
  (X64.shifted_lowByte_and left a b).trans (X64.shifted_lowByte left a b)

/-- The register form of an operation computes it. -/
lemma exec_regOpOf (s : Cpu) (op : IntOp) (general : dst ≠ Reg.zr) (rn rm : Reg) :
    (Instr.reg (regOpOf op) dst rn rm).exec s =
      some (s.setReg dst (op.eval (s.get rn) (s.get rm))) := by
  rw [← Cpu.put_of_ne general, Instr.exec_eq rfl]
  cases op with
  | add | sub =>
    simp only [regOpOf, RegOp.form, Form.exec, shifted_zero, addSub_fst, Bool.false_eq_true,
      if_true, if_false]
    rfl
  | mul =>
    simp only [regOpOf, RegOp.form, Form.exec, Cpu.get_zr, Bool.false_eq_true, if_false,
      Int64.zero_add]
    rfl
  | and | or | xor =>
    simp only [regOpOf, RegOp.form, Form.exec, shifted_zero, Bool.false_eq_true, if_false]
    rfl
  | shl => exact congrArg (fun w => some (s.put dst w)) (shifted_eq_eval true _ _)
  | shr => exact congrArg (fun w => some (s.put dst w)) (shifted_eq_eval false _ _)

lemma exec_mov (s : Cpu) (general : dst ≠ Reg.zr) (rm : Reg) :
    (Instr.mov dst rm).exec s = some (s.setReg dst (s.get rm)) := by
  have moved := exec_regOpOf s .or general Reg.zr rm
  rwa [Cpu.get_zr, IntOp.eval, Int64.zero_or] at moved

/-- A 12-bit immediate is the value it was made from. -/
lemma ofNat_immOf (fits : fitsImm value) : Word.ofNat ((immOf value).toNat % 2 ^ 12) = value := by
  simp only [fitsImm, Bool.and_eq_true, decide_eq_true_eq, Int64.le_iff_toInt_le,
    Int64.lt_iff_toInt_lt] at fits
  have bounds : 0 ≤ value.toInt ∧ value.toInt < 4096 := fits
  have unsigned := ByteMemory.cast_toUnsigned value
  have imm : (immOf value).toNat = Word.toUnsigned value % 2 ^ 16 := UInt64.toNat_toUInt16 _
  have same : (immOf value).toNat % 2 ^ 12 = Word.toUnsigned value := by omega
  rw [same]
  exact congrArg UInt64.toInt64 UInt64.ofNat_toNat

/-- The opposite of a value fits, and does not wrap. -/
lemma fitsImm_neg (fits : fitsNegImm value) : fitsImm (-value) ∧ (-value).toInt = -value.toInt := by
  simp only [fitsNegImm, Bool.and_eq_true, decide_eq_true_eq, Int64.le_iff_toInt_le,
    Int64.lt_iff_toInt_lt] at fits
  have bounds : -4095 ≤ value.toInt ∧ value.toInt < 0 := fits
  have negated : (-value).toInt = -value.toInt := by
    rw [Int64.toInt_neg, Int.bmod_eq_of_le (by omega) (by omega)]
  refine ⟨?_, negated⟩
  simp only [fitsImm, Bool.and_eq_true, decide_eq_true_eq, Int64.le_iff_toInt_le,
    Int64.lt_iff_toInt_lt, negated]
  show 0 ≤ -value.toInt ∧ -value.toInt < 4096
  omega

lemma exec_addSubImm (s : Cpu) (subtract : Bool) (rn : Reg)
    (stands : i.form? = some (.addSubImm subtract false dst rn ((immOf value).toNat % 2 ^ 12)))
    (fits : fitsImm value) :
    i.exec s = some (s.setReg dst (if subtract then s.regs rn - value else s.regs rn + value)) := by
  rw [Instr.exec_eq stands, Form.exec, ofNat_immOf fits]
  simp only [addSub_fst, Bool.false_eq_true, if_false]

/-- The immediate form of an operation computes it. -/
lemma exec_immForm? (s : Cpu) {op : IntOp} (general : dst ≠ Reg.zr)
    (form : immForm? op dst value = some i) :
    i.exec s = some (s.setReg dst (op.eval (s.regs dst) value)) := by
  have small : (Word.lowByte (value &&& 63)).toNat % 2 ^ 6 < 64 := Nat.mod_lt _ (by decide)
  have minus (a : Word) : a - -value = a + value ∧ a + -value = a - value := by grind
  cases op with
  | add =>
    simp only [immForm?] at form
    split at form
    case isTrue fits =>
      obtain rfl := Option.some.inj form
      exact exec_addSubImm s false dst rfl fits
    case isFalse =>
      split at form
      case isTrue fits =>
        obtain rfl := Option.some.inj form
        rw [exec_addSubImm s true dst rfl (fitsImm_neg fits).1, if_pos rfl, (minus _).1]
        rfl
      case isFalse => cases form
  | sub =>
    simp only [immForm?] at form
    split at form
    case isTrue fits =>
      obtain rfl := Option.some.inj form
      exact exec_addSubImm s true dst rfl fits
    case isFalse =>
      split at form
      case isTrue fits =>
        obtain rfl := Option.some.inj form
        rw [exec_addSubImm s false dst rfl (fitsImm_neg fits).1]
        exact congrArg (fun w => some (s.setReg dst w)) (minus _).2
      case isFalse => cases form
  | shl =>
    obtain rfl := Option.some.inj form
    rw [Instr.exec_eq rfl, Form.exec, Cpu.put_of_ne general, Cpu.get_of_ne general]
    exact congrArg (fun w => some (s.setReg dst w))
      ((moveField_left _ small).trans (shifted_imm true _ value))
  | shr =>
    obtain rfl := Option.some.inj form
    rw [Instr.exec_eq rfl, Form.exec, Cpu.put_of_ne general, Cpu.get_of_ne general]
    exact congrArg (fun w => some (s.setReg dst w))
      ((moveField_right _ small).trans (shifted_imm false _ value))
  | mul | and | or | xor => cases form

/-- Bringing an operand into a register leaves allocated registers alone. -/
lemma kept_get (allocated : dst ∈ intRegs) (spares : s.Spares [valueScratch, addrScratch] t) :
    t.get dst = s.regs dst := by
  have away := ne_of_mem_intRegs allocated
  rw [Cpu.get_of_ne (ne_zr_of_mem_intRegs allocated), spares.regs dst (by simp [away])]

/-- The code of an integer operation computes it. -/
lemma exec_intOp (op : IntOp) (allocated : dst ∈ intRegs) (offered : Offers src)
    (reached : Leads addresses {} l) (s : Cpu)
    (leads : Leads addresses (intOp op dst src l).2 final) (pool : s.HoldsPool final) :
    ∃ t, execAll Instr.exec s (intOp op dst src l).1 = some t ∧ t.regs dst = op.eval (s.regs dst)
    (s.src src) ∧
      s.Spares (dst :: scratchRegs) t := by
  have general := ne_zr_of_mem_intRegs allocated
  by_cases form : ∃ value i, src = .imm value ∧ immForm? op dst value = some i
  · obtain ⟨value, i, rfl, form⟩ := form
    rw [intOp_imm l form, execAll_singleton, exec_immForm? s general form]
    exact ⟨_, rfl, by simp [Cpu.src], (Cpu.Spares.refl s).setReg (.head _) _⟩
  · rw [intOp_through l fun value same => Option.eq_none_iff_forall_ne_some.2
      fun i is => form ⟨value, i, same, is⟩] at leads ⊢
    obtain ⟨t, load, result, spares⟩ := exec_srcReg offered reached s leads pool
    refine ⟨_, (execAll_append_of_eq load _).trans
      ((execAll_singleton _ _ _).trans (exec_regOpOf t op general dst _)), ?_, ?_⟩
    · rw [Cpu.setReg_regs, Function.update_self, kept_get allocated spares, result]
    · exact Cpu.Spares.setReg (spares.mono (by simp [scratchRegs])) (.head _) _

/-! ### Comparisons -/

/-- The flags of a comparison of two words, but for the carry. -/
structure Flags.Compare (f : Flags) (a b : Word) : Prop where
  negative : f.negative = decide (a - b < 0)
  zero : f.zero = (a - b == 0)
  overflow : f.overflow = decide ((a - b).toInt ≠ a.toInt - b.toInt)

/-- A subtraction that sets the flags compares its operands. -/
lemma compare_addSub_true (a b : Word) : (addSub true a b).2.Compare a b := by
  have difference : a + ~~~b + 1 = a - b := addSub_fst true a b
  have complement : (~~~b).toInt = -b.toInt - 1 := by
    have := b.toInt_lt
    have := b.le_toInt
    rw [Int64.toInt_not, Int.bmod_eq_of_le (by omega) (by omega)]
  refine ⟨congrArg (fun w : Word => decide (w < 0)) difference,
    congrArg (fun w : Word => w == 0) difference, ?_⟩
  show decide ((a + ~~~b + 1).toInt ≠ a.toInt + (~~~b).toInt + 1) = _
  rw [difference, complement]
  congr 2
  omega

/-- So does an addition of the opposite, if that does not wrap. -/
lemma compare_addSub_false (a : Word) {b : Word} (exact_ : (-b).toInt = -b.toInt) :
    (addSub false a (-b)).2.Compare a b := by
  have difference : a + -b + 0 = a - b := by grind
  refine ⟨congrArg (fun w : Word => decide (w < 0)) difference,
    congrArg (fun w : Word => w == 0) difference, ?_⟩
  show decide ((a + -b + 0).toInt ≠ a.toInt + (-b).toInt + 0) = _
  rw [difference, exact_]
  congr 2
  omega

/-- After a comparison the condition of a relation holds exactly when the relation does. -/
lemma Flags.Compare.holds {f : Flags} {a b : Word} (compared : f.Compare a b) (c : Comparison) :
    (condOf c).holds f = c.evalWord a b := by
  have zero : f.zero = (a == b) := compared.zero.trans (X64.sub_beq_zero a b)
  have less : (f.negative != f.overflow) = decide (a < b) := by
    rw [compared.negative, compared.overflow]
    exact X64.sign_sub a b
  have notLess : (f.negative == f.overflow) = !decide (a < b) := by rw [← less, bne, Bool.not_not]
  cases c with
  | eq => exact zero
  | ne => exact congrArg not zero
  | lt => exact less
  | ge =>
    refine notLess.trans ?_
    rw [← decide_not]
    exact decide_eq_decide.2 Int64.not_lt
  | le =>
    show (!(!f.zero && f.negative == f.overflow)) = decide (a ≤ b)
    rw [zero, notLess, Bool.eq_iff_iff]
    simp only [Bool.not_and, Bool.not_not, Bool.or_eq_true, beq_iff_eq, decide_eq_true_eq,
      Int64.le_iff_toInt_le, Int64.lt_iff_toInt_lt, ← Int64.toInt_inj]
    omega
  | gt =>
    show (!f.zero && f.negative == f.overflow) = decide (b < a)
    rw [zero, notLess, Bool.eq_iff_iff]
    simp only [Bool.and_eq_true, Bool.not_eq_true', beq_eq_false_iff_ne, decide_eq_false_iff_not,
      decide_eq_true_eq, Int64.lt_iff_toInt_lt, ne_eq, ← Int64.toInt_inj]
    omega

/-- An addition or a subtraction to the zero register only sets the flags. -/
lemma exec_flagsImm (s : Cpu) (subtract : Bool) (rn : Reg)
    (stands : i.form? = some (.addSubImm subtract true Reg.zr rn ((immOf value).toNat % 2 ^ 12)))
    (fits : fitsImm value) :
    i.exec s = some (s.setFlags (addSub subtract (s.regs rn) value).2) := by
  rw [Instr.exec_eq stands, Form.exec, ofNat_immOf fits]
  rfl

lemma exec_cmp (s : Cpu) (rn rm : Reg) :
    (Instr.cmp rn rm).exec s = some (s.setFlags (addSub true (s.get rn) (s.get rm)).2) := by
  rw [Instr.exec_eq rfl, Form.exec, shifted_zero]
  rfl

/-- A comparison leaves the flags of its operands. -/
lemma exec_compare (allocated : dst ∈ intRegs) (offered : Offers src)
    (reached : Leads addresses {} l) (s : Cpu) (leads : Leads addresses (compare dst src l).2 final)
    (pool : s.HoldsPool final) :
    ∃ t, execAll Instr.exec s (compare dst src l).1 = some t ∧ t.flags.Compare (s.regs dst)
    (s.src src) ∧
      s.Spares scratchRegs t := by
  have through (other : ∀ value, src = .imm value → ¬fitsImm value ∧ ¬fitsNegImm value) :
      ∃ t, execAll Instr.exec s (compare dst src l).1 = some t ∧
      t.flags.Compare (s.regs dst) (s.src src) ∧
        s.Spares scratchRegs t := by
    rw [compare_through l other] at leads ⊢
    obtain ⟨t, load, result, spares⟩ := exec_srcReg offered reached s leads pool
    refine ⟨_, (execAll_append_of_eq load _).trans
      ((execAll_singleton _ _ _).trans (exec_cmp t dst _)), ?_,
        (spares.setFlags _).mono (by simp [scratchRegs])⟩
    rw [kept_get allocated spares, result]
    exact compare_addSub_true _ _
  cases src with
  | reg r | slot index => exact through nofun
  | imm value =>
    by_cases fits : fitsImm value
    · rw [compare_imm l fits, execAll_singleton, exec_flagsImm s true dst rfl fits]
      exact ⟨_, rfl, compare_addSub_true _ _, (Cpu.Spares.refl s).setFlags _⟩
    · by_cases fitsNeg : fitsNegImm value
      · obtain ⟨fitsToo, negated⟩ := fitsImm_neg fitsNeg
        rw [compare_negImm l fits fitsNeg, execAll_singleton, exec_flagsImm s false dst rfl fitsToo]
        exact ⟨_, rfl, compare_addSub_false _ negated, (Cpu.Spares.refl s).setFlags _⟩
      · exact through fun value' same => by cases same; exact ⟨fits, fitsNeg⟩

/-! ### Division -/

/-- A division instruction gives the wrapped quotient. -/
lemma ofInt_tdiv (a b : Word) : Int64.ofInt (a.toInt.tdiv b.toInt) = a / b := by
  rw [← Int64.toInt_inj, Int64.toInt_ofInt, Int64.toInt_div]

/-- What is left of a dividend after the product of divisor and quotient. -/
lemma sub_div_mul (a b : Word) : a - a / b * b = a % b := by
  have whole : a.toInt - a.toInt.tdiv b.toInt * b.toInt = a.toInt.tmod b.toInt := by
    have := Int.tmod_add_tdiv_mul a.toInt b.toInt
    omega
  calc
    a - a / b * b = Int64.ofInt a.toInt - Int64.ofInt (a.toInt.tdiv b.toInt) * Int64.ofInt
      b.toInt := by
      rw [ofInt_tdiv, Int64.ofInt_toInt, Int64.ofInt_toInt]
    _ = Int64.ofInt (a.toInt.tmod b.toInt) := by rw [← Int64.ofInt_mul, ← Int64.ofInt_sub, whole]
    _ = a % b := by rw [← Int64.toInt_mod, Int64.ofInt_toInt]

/-- A divisor is brought into a register that is not the zero register. -/
lemma exec_divisorReg (offered : Offers src) (reached : Leads addresses {} l) (s : Cpu)
    (leads : Leads addresses (divisorReg src l).2 final) (pool : s.HoldsPool final) :
    ∃ t, execAll Instr.exec s (divisorReg src l).1.1 = some t ∧
    t.get (divisorReg src l).1.2 = s.src src ∧
      s.Spares [valueScratch, addrScratch] t := by
  unfold divisorReg at leads ⊢
  by_cases zero : src = .imm 0
  · rw [if_pos zero, zero]
    refine ⟨s.setReg valueScratch 0, ?_, ?_, (Cpu.Spares.refl s).setReg (.head _) 0⟩
    · show execAll Instr.exec s [Instr.mov valueScratch Reg.zr] = _
      rw [execAll_singleton, exec_mov s (by decide), Cpu.get_zr]
    · show Cpu.get _ valueScratch = 0
      rw [Cpu.get_of_ne (by decide), Cpu.setReg_regs, Function.update_self]
  · rw [if_neg zero] at leads ⊢
    exact exec_srcReg offered reached s leads pool

/-- A divisor is in an allocated register or in the scratch register for values. -/
lemma divisorReg_ne (offered : Offers src) (l : Literals) :
    (divisorReg src l).1.2 ≠ addrScratch := by
  have scratch : valueScratch ≠ addrScratch := by decide
  unfold divisorReg
  split
  case isTrue => exact scratch
  case isFalse other =>
    cases src with
    | reg r =>
      have away := ne_of_mem_intRegs offered
      exact away.2.2.2.1
    | slot index => exact scratch
    | imm value =>
      have nonzero : value ≠ 0 := fun same => other (same ▸ rfl)
      simp only [srcReg, if_neg nonzero]
      exact scratch

/-- A division by a number other than 0. -/
lemma exec_quotientCode (s : Cpu) (remainder : Bool) {divisor : Reg} (allocated : dst ∈ intRegs)
    (other : divisor ≠ addrScratch) :
    ∃ t, execAll Instr.exec s (quotientCode remainder dst divisor) = some t ∧
      t.regs dst = Word.divide remainder (s.regs dst) (s.get divisor) ∧
      s.Spares (dst :: scratchRegs) t := by
  have general := ne_zr_of_mem_intRegs allocated
  have away := ne_of_mem_intRegs allocated
  have quotient {rd : Reg} (general' : rd ≠ Reg.zr) :
      (Instr.reg .sdiv rd dst divisor).exec s =
        some (s.setReg rd (s.regs dst / s.get divisor)) := by
    rw [Instr.exec_eq rfl, RegOp.form, Form.exec, Cpu.put_of_ne general', Cpu.get_of_ne general,
      ofInt_tdiv]
  cases remainder with
  | false =>
    refine ⟨s.setReg dst (s.regs dst / s.get divisor), ?_, by simp [Word.divide],
      (Cpu.Spares.refl s).setReg (.head _) _⟩
    show execAll Instr.exec s [.reg .sdiv dst dst divisor] = _
    rw [execAll_singleton, quotient general]
  | true =>
    let divided := s.setReg addrScratch (s.regs dst / s.get divisor)
    have spares : s.Spares [addrScratch] divided := (Cpu.Spares.refl s).setReg (.head _) _
    have sameDst : divided.get dst = s.regs dst := by
      rw [spares.get (by simp [away]), Cpu.get_of_ne general]
    have sameDivisor : divided.get divisor = s.get divisor := spares.get (by simp [other])
    have scratch : divided.get addrScratch = s.regs dst / s.get divisor := by
      rw [Cpu.get_of_ne (by decide), Cpu.setReg_regs, Function.update_self]
    have multiply : (Instr.msub dst addrScratch divisor dst).exec divided =
        some (divided.setReg dst (s.regs dst % s.get divisor)) := by
      rw [Instr.exec_eq rfl, Form.exec, Cpu.put_of_ne general, sameDst, sameDivisor, scratch,
        if_pos rfl, sub_div_mul]
    refine ⟨divided.setReg dst (s.regs dst % s.get divisor), ?_, by simp [Word.divide],
      Cpu.Spares.setReg (spares.mono (by simp [scratchRegs])) (.head _) _⟩
    show execAll Instr.exec s [.reg .sdiv addrScratch dst divisor,
      .msub dst addrScratch divisor dst] = _
    rw [execAll_cons (quotient (by decide)), execAll_singleton, multiply]

/-! ### Code of an operation

The bytes of an operation stand somewhere in the code, at a multiple of 4, with any displacement in
the field of its branch. -/

/-- The bytes of a piece, with a displacement in the field of its branch; it is counted in
instructions. -/
def linked (words : Int) (piece : Piece) : List UInt8 :=
  match piece.branch, piece.bytes with
  | some (_, kind, _), [a, b, c, d] =>
    bytes32 (BranchSite.placeField kind (word32 a b c d)
      (UInt32.ofInt (words % 2 ^ BranchSite.fieldBits kind)))
  | _, bytes => bytes

/-- The offset at which control leaves pieces: after their last byte, or where a branch to a target
leads. -/
def LeavesAt (start : Nat) (pieces : List Piece) (words offset : Int) : Option JumpTarget → Prop
  | none => offset = start + Piece.size pieces
  | some target =>
    ∃ site, (site, target) ∈ Piece.sites start pieces ∧ offset = site.offset + 4 * words

/-- The code of an operation takes a state to one with a property, at any time during the generation
of a method whose finished pool the state holds.  It leaves by a branch to a target, or at its
end. -/
def Executes (addresses : Addresses) (op : Operation Reg DReg) (s : Cpu) (exit : Option JumpTarget)
    (post : Cpu → Prop) : Prop :=
  ∀ l, Leads addresses {} l → ∃ pieces m, (backend addresses).lower l op = .ok (pieces, m) ∧
    ∀ final, Leads addresses m final → s.HoldsPool final →
      ∃ t, post t ∧ ∀ code start words, 4 ∣ start → BranchSite.InField .imm19 words →
        Stand code start (pieces.flatMap (linked words)) →
          ∃ offset, LeavesAt start pieces words offset exit ∧ Runs code (start, s) (offset, t)

lemma flatMap_linked_plain (words : Int) (code : List Instr) :
    ((Step.plain code).map Step.piece).flatMap (linked words) = encodeAll code :=
  Piece.flatMap_plain (fun _ => rfl) code

lemma size_steps (steps : List Step) : Piece.size (steps.map Step.piece) = 4 * steps.length := by
  induction steps with
  | nil => rfl
  | cons step rest ih =>
    rw [List.map_cons, Piece.size_cons, ih, List.length_cons]
    show 4 + _ = _
    omega

/-- The bytes of a branch that is still open, once it has its displacement. -/
lemma linked_branch (words : Int) (short : i.siteKind = .imm19) :
    linked words (Step.piece ⟨i, some target⟩) =
      bytes32 (BranchSite.placeField .imm19 i.encode (UInt32.ofInt (words % 2 ^ 19))) := by
  have placed : linked words (Step.piece ⟨i, some target⟩) = bytes32
      (BranchSite.placeField i.siteKind (word32 _ _ _ _)
        (UInt32.ofInt (words % 2 ^ BranchSite.fieldBits i.siteKind))) := rfl
  rw [placed, word32_bytes32, short]
  rfl

lemma Executes.of_plain {op : Operation Reg DReg} (select : Literals → List Instr × Literals)
    (lowers : ∀ l, (backend addresses).lower l op = .ok ((Step.plain (select l).1).map Step.piece,
      (select l).2))
    (run : ∀ l final, Leads addresses {} l → Leads addresses (select l).2 final →
      s.HoldsPool final → ∃ t, execAll Instr.exec s (select l).1 = some t ∧ post t) :
    Executes addresses op s none post := by
  intro l reached
  refine ⟨_, _, lowers l, fun final leads pool => ?_⟩
  obtain ⟨t, run, holds⟩ := run l final reached leads pool
  refine ⟨t, holds, fun code start words aligned _ stand => ⟨_, rfl, ?_⟩⟩
  rw [flatMap_linked_plain] at stand
  rw [size_steps, Step.plain, List.length_map, ← Int.natCast_add]
  exact Runs.block aligned stand run

lemma Executes.of_plain_branch {op : Operation Reg DReg} {holds : Bool} (instrs : List Instr)
    (relation : Comparison)
    (lowers : ∀ l, (backend addresses).lower l op =
      .ok ((Step.plain instrs ++ [Step.branch (condOf relation) target]).map Step.piece, l))
    (run : execAll Instr.exec s instrs = some t) (test : (condOf relation).holds t.flags = holds)
    (post_t : post t) :
    Executes addresses op s (if holds then some target else none) post := by
  intro l reached
  refine ⟨_, l, lowers l, fun final leads pool =>
    ⟨t, post_t, fun code start words aligned inField stand => ?_⟩⟩
  have group : bits (Instr.bCond (condOf relation) 0).encode.toNat 24 8 ∈ [0x54, 0xB4, 0xB5] := by
    cases relation <;> decide
  have read := decode_placeField group inField
  rw [decode_encode rfl] at read
  rw [List.map_append, List.flatMap_append, flatMap_linked_plain, Stand.append, List.map_singleton,
    List.flatMap_singleton, Step.branch, linked_branch words rfl, length_encodeAll] at stand
  have branched := Runs.branchCond (s := t) (Nat.dvd_add aligned (Nat.dvd_mul_right _ _))
    stand.2 read
  refine ⟨_, ?_, (Runs.block aligned stand.1 run).trans branched⟩
  rw [test]
  cases holds with
  | true =>
    refine ⟨⟨start + (encodeAll instrs).length, .imm19⟩, ?_, by rw [length_encodeAll]; rfl⟩
    rw [List.map_append, Piece.sites_plain_append]
    exact List.mem_cons_self
  | false =>
    show _ = (start : Int) + _
    rw [size_steps, List.length_append, Step.plain, List.length_map, Nat.mul_add, ← Int.natCast_add,
      ← Nat.add_assoc]
    rfl

lemma Executes.branch {holds : Bool} (test : (condOf relation).holds s.flags = holds)
    (post_s : post s) :
    Executes addresses (.branch relation target) s (if holds then some target else none) post :=
  .of_plain_branch [] relation (fun _ => rfl) rfl test post_s

/-- The truth value of a comparison. -/
lemma Executes.setCond {holds : Bool} (allocated : dst ∈ intRegs)
    (test : (condOf relation).holds s.flags = holds) :
    Executes addresses (.setCond dst relation) s none fun t =>
      t.regs dst = Word.ofBool holds ∧ Keeps [dst] s t := by
  have general := ne_zr_of_mem_intRegs allocated
  have other : condOf relation ≠ .al := by cases relation <;> decide
  have sets : (Instr.cset dst (condOf relation)).exec s =
    some (s.setReg dst (Word.ofBool holds)) := by
    rw [Instr.exec_eq rfl, Form.exec, Cpu.put_of_ne general, Cond.holds_invert other, test,
      Cpu.get_zr]
    cases holds <;> rfl
  refine .of_plain (fun l => ([.cset dst (condOf relation)], l)) (fun _ => rfl)
    fun l final _ _ _ => ?_
  refine ⟨_, (execAll_singleton _ _ _).trans sets, by simp, ?_⟩
  exact Keeps.of_spares (by simp [allocated]) ((Cpu.Spares.refl s).setReg (.head _) _)

lemma flatMap_linked_divide (words : Int) (remainder : Bool) (dst : Reg) (src : Src Reg)
    (onZero : JumpTarget) (l : Literals) :
    ((divide remainder dst src onZero l).1.map Step.piece).flatMap (linked words) = encodeAll
        (divisorReg src l).1.1 ++
          (bytes32 (BranchSite.placeField .imm19 (Instr.cbz (divisorReg src l).1.2 0).encode
            (UInt32.ofInt (words % 2 ^ 19))) ++ encodeAll
              (quotientCode remainder dst (divisorReg src l).1.2)) := by
  rw [divide_eq, List.append_assoc, List.map_append, List.flatMap_append, flatMap_linked_plain,
    List.map_append, List.flatMap_append, flatMap_linked_plain, List.map_singleton,
      List.flatMap_singleton, linked_branch words rfl]

/-- A division leaves by its branch exactly when the divisor is 0. -/
lemma Executes.divide (s : Cpu) (remainder : Bool) (onZero : JumpTarget) (allocated : dst ∈ intRegs)
    (offered : Offers src) :
    Executes addresses (.divide remainder dst src onZero) s
      (if s.src src = 0 then some onZero else none) fun t =>
      (s.src src ≠ 0 → t.regs dst = Word.divide remainder (s.regs dst) (s.src src)) ∧
        Keeps (if s.src src = 0 then [] else [dst]) s t := by
  intro l reached
  let lead := (divisorReg src l).1.1
  let divisor := (divisorReg src l).1.2
  refine ⟨(A64.divide remainder dst src onZero l).1.map Step.piece,
    (A64.divide remainder dst src onZero l).2, rfl, fun final leads pool => ?_⟩
  have sameLiterals : (A64.divide remainder dst src onZero l).2 = (divisorReg src l).2 := by
    rw [divide_eq]
  rw [sameLiterals] at leads
  obtain ⟨loaded, load, value, spares⟩ := exec_divisorReg offered reached s leads pool
  have group : bits (Instr.cbz divisor 0).encode.toNat 24 8 ∈ [0x54, 0xB4, 0xB5] := by
    cases divisor <;> decide
  have branched {code : List UInt8} {start : Nat} {words : Int} (aligned : 4 ∣ start)
      (inField : BranchSite.InField .imm19 words)
      (stand : Stand code start (((A64.divide remainder dst src onZero l).1.map Step.piece).flatMap
        (linked words))) :
      Runs code (start, s) (if s.src src = 0 then ((start + 4 * lead.length : Nat) : Int) +
          4 * words else (start + 4 * lead.length + 4 : Nat), loaded) ∧
        Stand code (start + 4 * lead.length + 4)
          (encodeAll (quotientCode remainder dst divisor)) := by
    rw [flatMap_linked_divide, Stand.append, Stand.append, length_encodeAll] at stand
    have read := decode_placeField group inField
    rw [decode_encode rfl] at read
    have branch := Runs.branchZero (s := loaded) (Nat.dvd_add aligned (Nat.dvd_mul_right 4 _))
      stand.2.1 read
    have taken : (decide (loaded.get divisor = 0) != false) = decide (s.src src = 0) := by
      rw [value, Bool.bne_false]
    simp only [taken, decide_eq_true_eq] at branch
    exact ⟨(Runs.block aligned stand.1 load).trans branch, stand.2.2⟩
  by_cases zero : s.src src = 0
  · refine ⟨loaded, ⟨fun notZero => absurd zero notZero, ?_⟩,
      fun code start words aligned inField stand => ?_⟩
    · rw [if_pos zero]
      exact Keeps.of_spares (by simp) (spares.mono (by simp [scratchRegs]))
    · refine ⟨_, ?_, (branched aligned inField stand).1⟩
      rw [if_pos zero, if_pos zero]
      refine ⟨⟨start + (encodeAll lead).length, .imm19⟩, ?_, by rw [length_encodeAll]⟩
      rw [divide_eq, List.append_assoc, List.map_append, Piece.sites_plain_append]
      exact List.mem_cons_self
  · have size : Piece.size ((A64.divide remainder dst src onZero l).1.map Step.piece) =
        4 * lead.length + 4 + 4 * (quotientCode remainder dst divisor).length := by
      rw [size_steps, divide_eq]
      simp only [Step.plain, List.length_append, List.length_map, List.length_singleton, lead,
        divisor]
      omega
    obtain ⟨t, run, result, changes⟩ := exec_quotientCode loaded remainder allocated
      (divisorReg_ne offered l)
    have kept : loaded.regs dst = s.regs dst := by
      rw [← kept_get allocated spares, Cpu.get_of_ne (ne_zr_of_mem_intRegs allocated)]
    refine ⟨t, ⟨fun _ => ?_, ?_⟩, fun code start words aligned inField stand =>
      ⟨(start + 4 * lead.length + 4 + 4 * (quotientCode remainder dst divisor).length : Nat),
        ?_, ?_⟩⟩
    · rw [result, kept, value]
    · rw [if_neg zero]
      exact Keeps.of_spares (by simp [allocated])
        ((spares.mono (by simp [scratchRegs])).trans changes)
    · rw [if_neg zero, LeavesAt, size, ← Int.natCast_add, ← Nat.add_assoc, ← Nat.add_assoc]
    · obtain ⟨toQuotient, atQuotient⟩ := branched aligned inField stand
      rw [if_neg zero] at toQuotient
      exact toQuotient.trans (Runs.block (by omega) atQuotient run)

end StackMachine.A64
