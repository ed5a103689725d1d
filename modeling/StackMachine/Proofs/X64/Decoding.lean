import StackMachine.Proofs.X64.Format

/-!
# Instructions can be read back

The bytes of instructions in a row, read by the format of the instructions, give back the
instructions (`decodeAll_encodeAll`).  The proof takes the parts of an instruction in their order.
A REX byte is read back, and so is its absence (`takeRex_rex`); what comes after it depends on the
opcode only through a table (`Names`). A register and a memory operand are read back
(`takeOperand_modrm`, `takeOperand_memOperand`), and so are immediates.  Each instruction is then a
look-up in a table (`decode_encode`).

Operands that the format does not have are excluded by `Instr.Encodable`: `rsp` as an index, a scale
that is no power of two up to eight, an SSE register from 16 on, and for the byte operations, which
have no REX byte of their own, the registers whose low byte needs one.
-/

namespace StackMachine.X64

variable {n reg index base op : UInt8} {wide force : Bool} {r : Rex} {i : Instr} {value : Word}

/-! ### Fields of bytes -/

/-- A property of all numbers below a bound. -/
lemma forall_lt {P : UInt8 → Prop} {bound : Nat} (all : ∀ k : Fin bound, P (UInt8.ofNat k))
    (lt : n.toNat < bound) : P n := by
  have same : UInt8.ofNat (⟨n.toNat, lt⟩ : Fin bound) = n := UInt8.ofNat_toNat
  exact same ▸ all ⟨n.toNat, lt⟩

/-- The high bit of a register number. -/
lemma shiftRight_and_one (lt : n < 16) : (n >>> 3) &&& 1 = if decide (8 ≤ n) then 1 else 0 :=
  forall_lt (P := fun n => (n >>> 3) &&& 1 = if decide (8 ≤ n) then 1 else 0) (by decide)
    (UInt8.lt_iff_toNat_lt.1 lt)

/-- A register number is put together from its high bit and its low bits. -/
lemma extend_and (lt : n < 16) : extend (decide (8 ≤ n)) (n &&& 7) = n :=
  forall_lt (P := fun n => extend (decide (8 ≤ n)) (n &&& 7) = n) (by decide)
    (UInt8.lt_iff_toNat_lt.1 lt)

/-- The fields of a byte of two, three and three bits. -/
lemma fields_of_lt {a b c : UInt8} (ha : a.toNat < 4) (hb : b.toNat < 8) (hc : c.toNat < 8) :
    ((a <<< 6) ||| (b <<< 3) ||| c) >>> 6 = a ∧ (((a <<< 6) ||| (b <<< 3) ||| c) >>> 3) &&& 7 = b ∧
      ((a <<< 6) ||| (b <<< 3) ||| c) &&& 7 = c := by
  have all : ∀ (a : Fin 4) (b c : Fin 8),
      let byte := (UInt8.ofNat a <<< 6) ||| (UInt8.ofNat b <<< 3) ||| UInt8.ofNat c
      byte >>> 6 = UInt8.ofNat a ∧ (byte >>> 3) &&& 7 = UInt8.ofNat b ∧
      byte &&& 7 = UInt8.ofNat c := by
    decide +kernel
  simpa only [UInt8.ofNat_toNat] using all ⟨a.toNat, ha⟩ ⟨b.toNat, hb⟩ ⟨c.toNat, hc⟩

lemma toNat_and_three (n : UInt8) : (n &&& 3).toNat < 4 := by
  rw [UInt8.toNat_and]
  exact Nat.and_lt_two_pow _ (by decide : (3 : UInt8).toNat < 2 ^ 2)

lemma toNat_and_seven (n : UInt8) : (n &&& 7).toNat < 8 := by
  rw [UInt8.toNat_and]
  exact Nat.and_lt_two_pow _ (by decide : (7 : UInt8).toNat < 2 ^ 3)

/-- The fields of a ModR/M byte. -/
lemma fields_modrm (mode reg rm : UInt8) :
    modrm mode reg rm >>> 6 = mode &&& 3 ∧ (modrm mode reg rm >>> 3) &&& 7 = reg &&& 7 ∧
      modrm mode reg rm &&& 7 = rm &&& 7 :=
  fields_of_lt (toNat_and_three mode) (toNat_and_seven reg) (toNat_and_seven rm)

/-! Only the low bits of a register number are in a ModR/M byte. -/

@[simp]
lemma modrm_low_left (mode : UInt8) (reg : Reg) (rm : UInt8) :
    modrm mode reg.low rm = modrm mode reg.num rm := by
  rw [modrm, Reg.low, UInt8.and_assoc, UInt8.and_self, ← modrm]

@[simp]
lemma modrm_low_right (mode reg : UInt8) (rm : Reg) :
    modrm mode reg rm.low = modrm mode reg rm.num := by
  rw [modrm, Reg.low, UInt8.and_assoc, UInt8.and_self, ← modrm]

/-! ### Prefixes -/

/-- What the REX byte of an instruction says. -/
@[simps]
def Rex.of (wide : Bool) (reg index base : UInt8) (force : Bool := false) : Rex where
  present := wide || decide (8 ≤ reg) || decide (8 ≤ index) || decide (8 ≤ base) || force
  wide := wide
  reg := 8 ≤ reg
  index := 8 ≤ index
  base := 8 ≤ base

/-- A REX byte is left out where it says nothing, and says what it should where it is there. -/
lemma rex_eq (wide force : Bool) (hr : reg < 16) (hi : index < 16) (hb : base < 16) :
    rex wide reg index base force = [] ∧ Rex.of wide reg index base force = {} ∨
      ∃ byte, rex wide reg index base force = [byte] ∧ byte &&& 0xF0 = 0x40 ∧
        Rex.of wide reg index base force = .ofByte byte := by
  unfold rex Rex.of
  simp only [shiftRight_and_one hr, shiftRight_and_one hi, shiftRight_and_one hb]
  -- What is left depends only on the five bits.
  generalize decide (8 ≤ reg) = r, decide (8 ≤ index) = x, decide (8 ≤ base) = b
  cases wide <;> cases r <;> cases x <;> cases b <;> cases force <;>
    first
    | exact .inl ⟨rfl, rfl⟩
    | exact .inr ⟨_, rfl, rfl, rfl⟩

lemma takeRex_rex (hr : reg < 16) (hi : index < 16) (hb : base < 16) (hop : op &&& 0xF0 ≠ 0x40)
    (tail : List UInt8) :
    takeRex (rex wide reg index base force ++ op :: tail) =
      (.of wide reg index base force, op :: tail) := by
  obtain ⟨bytes, means⟩ | ⟨byte, bytes, mark, means⟩ := rex_eq wide force hr hi hb
  · rw [bytes, means]
    exact if_neg hop
  · rw [bytes, means]
    exact if_pos mark

/-- Bytes before and after the REX byte that name an instruction of a table. -/
def Names (lead opcode : List UInt8) (table : Rex → Option Form) : Prop :=
  ∀ ⦃wide force : Bool⦄ ⦃reg index base : UInt8⦄ (tail : List UInt8), reg < 16 → index < 16 →
    base < 16 →
    decode (lead ++ (rex wide reg index base force ++ (opcode ++ tail))) =
      (table (.of wide reg index base force)).bind
      fun form => form.read (.of wide reg index base force) tail

lemma names_double (op : UInt8) : Names [0xF2] [0x0F, op] (doubleOp? · op) := by
  intro wide force reg index base tail hr hi hb
  change readEscaped doubleOp? (takeRex (rex wide reg index base force ++ 0x0F :: op :: tail)) = _
  rw [takeRex_rex hr hi hb (by decide)]
  rfl

lemma names_packed (op : UInt8) : Names [0x66] [0x0F, op] (packedOp? · op) := by
  intro wide force reg index base tail hr hi hb
  change readEscaped packedOp? (takeRex (rex wide reg index base force ++ 0x0F :: op :: tail)) = _
  rw [takeRex_rex hr hi hb (by decide)]
  rfl

/-- A REX byte is no other prefix. -/
lemma decode_rex (hr : reg < 16) (hi : index < 16) (hb : base < 16) (hop : op &&& 0xF0 ≠ 0x40)
    (double : op ≠ 0xF2) (packed : op ≠ 0x66) (tail : List UInt8) :
    decode (rex wide reg index base force ++ op :: tail) = readPlain
      (.of wide reg index base force, op :: tail) := by
  have plain {b : UInt8} (double : b ≠ 0xF2) (packed : b ≠ 0x66) (rest : List UInt8) :
      decode (b :: rest) = readPlain (takeRex (b :: rest)) := by
    unfold decode
    split <;> simp_all
  rw [← takeRex_rex hr hi hb hop]
  obtain ⟨bytes, -⟩ | ⟨byte, bytes, mark, -⟩ := rex_eq wide force hr hi hb
  · rw [bytes]
    exact plain double packed tail
  · rw [bytes]
    exact plain (by rintro rfl; cases mark) (by rintro rfl; cases mark) (op :: tail)

/-- A byte that is no prefix is an opcode. -/
lemma names_one (op : UInt8)
    (h : op &&& 0xF0 ≠ 0x40 ∧ op ≠ 0xF2 ∧ op ≠ 0x66 ∧ op ≠ 0x0F := by decide) :
    Names [] [op] (oneByte? · op) := by
  obtain ⟨mark, double, packed, escape⟩ := h
  intro wide force reg index base tail hr hi hb
  exact (decode_rex hr hi hb mark double packed tail).trans (if_neg escape)

lemma names_two (op : UInt8) : Names [] [0x0F, op] (twoByte? · op) := by
  intro wide force reg index base tail hr hi hb
  exact decode_rex hr hi hb (by decide) (by decide) (by decide) (op :: tail)

/-! ### Immediates -/

lemma take32_bytes32 (v : UInt32) (rest : List UInt8) :
    take32 (bytes32 v ++ rest) = some (v, rest) := by
  simp only [bytes32, List.cons_append, List.nil_append, take32, word32_bytes32]

lemma take32_bytesOf (v : Int32) (rest : List UInt8) :
    take32 (bytesOf v ++ rest) = some (v.toUInt32, rest) := take32_bytes32 _ _

/-- A value that fits a byte is its low byte, sign-extended. -/
lemma toInt32_byteOf {v : Int32} (fits : fitsByte v) : (byteOf v).toInt8.toInt32 = v := by
  have le : -128 ≤ v.toInt ∧ v.toInt ≤ 127 := by
    simpa [fitsByte, Int32.le_iff_toInt_le] using fits
  have low : (byteOf v).toInt8 = v.toInt8 := by
    apply Int8.toBitVec_inj.1
    simpa [byteOf] using (BitVec.signExtend_eq_setWidth_of_le v.toBitVec (by decide)).symm
  apply Int32.toInt_inj.1
  rw [Int8.toInt_toInt32, low, Int32.toInt_toInt8]
  exact Int.bmod_eq_of_le (by omega) (by omega)

/-- A number is put together from its halves. -/
lemma word_halves (v : UInt64) :
    (v.toUInt32.toUInt64 ||| ((v >>> 32).toUInt32.toUInt64 <<< 32)) = v := by
  apply UInt64.toNat_inj.1
  have := v.toNat_lt
  have low : v.toNat % 2 ^ 32 < 2 ^ 32 := Nat.mod_lt _ (by decide)
  have fits : (v.toNat / 2 ^ 32) % 2 ^ 32 * 2 ^ 32 < 2 ^ 64 := by omega
  simp only [UInt64.toNat_or, UInt32.toNat_toUInt64, UInt64.toNat_toUInt32, UInt64.toNat_shiftLeft,
    UInt64.toNat_shiftRight, Nat.shiftRight_eq_div_pow]
  rw [Nat.or_comm, show UInt64.toNat 32 % 64 = 32 from rfl,
    Nat.mod_eq_of_lt (by simpa only [Nat.shiftLeft_eq] using fits),
    ← Nat.shiftLeft_add_eq_or_of_lt low, Nat.shiftLeft_eq]
  omega

lemma take64_bytes64 (v : UInt64) (rest : List UInt8) :
    take64 (bytes64 v ++ rest) = some (v, rest) := by
  simp only [take64, bytes64, List.append_assoc, take32_bytes32, Option.bind_eq_bind,
    Option.bind_some, word_halves, Option.pure_def]

/-! ### Operands -/

/-- A ModR/M byte of two registers is read back. -/
lemma takeOperand_modrm {rm : UInt8} (hr : reg < 16) (hm : rm < 16)
    (high : r.reg = decide (8 ≤ reg)) (base : r.base = decide (8 ≤ rm)) (rest : List UInt8) :
    takeOperand r (modrm 3 reg rm :: rest) = some (reg, .reg rm, rest) := by
  obtain ⟨mode, field, low⟩ := fields_modrm 3 reg rm
  have register : modrm 3 reg rm >>> 6 = 3 := mode
  simp only [takeOperand, register, if_true, field, low, high, base, extend_and hr, extend_and hm]

/-- A memory operand that the format has: the index is not `rsp`, and its scale is one of four. -/
def Mem.Valid (mem : Mem) : Prop := ∀ i ∈ mem.index, i.1 ≠ .rsp ∧ i.2 ∈ ([1, 2, 4, 8] : List UInt8)

instance (mem : Mem) : Decidable mem.Valid :=
  inferInstanceAs (Decidable (∀ i ∈ mem.index, i.1 ≠ .rsp ∧ i.2 ∈ ([1, 2, 4, 8] : List UInt8)))

lemma Mem.mode_cases (mem : Mem) :
    mem.mode = 0 ∧ mem.disp = 0 ∧ mem.base.low ≠ 5 ∨ mem.mode = 1 ∧ fitsByte mem.disp ∨
    mem.mode = 2 := by
  unfold Mem.mode
  split
  case isTrue h => exact .inl ⟨rfl, h⟩
  case isFalse =>
    split
    case isTrue fits => exact .inr (.inl ⟨rfl, fits⟩)
    case isFalse => exact .inr (.inr rfl)

/-- A base that would be none has a displacement. -/
lemma Mem.not_baseless (mem : Mem) : ¬ (mem.base.low = 5 ∧ mem.mode = 0) := by
  rintro ⟨five, zero⟩
  obtain ⟨-, -, other⟩ | ⟨eq, -⟩ | eq := mem.mode_cases
  · exact other five
  · cases zero.symm.trans eq
  · cases zero.symm.trans eq

lemma takeDisp_mode (mem : Mem) (rest : List UInt8) : takeDisp mem.mode
        ((if mem.mode = 1 then [byteOf mem.disp] else if mem.mode = 2 then bytesOf mem.disp
      else []) ++ rest) = some (mem.disp, rest) := by
  obtain ⟨mode, zero, -⟩ | ⟨mode, fits⟩ | mode := mem.mode_cases
  · rw [mode, zero]
    rfl
  · rw [mode]
    exact congrArg (fun disp => some (disp, rest)) (toInt32_byteOf fits)
  · rw [mode]
    simp [takeDisp, take32_bytesOf]

/-- The index byte of a memory operand. -/
lemma fields_sib (scale : UInt8) (index base : Reg) :
    let sib := (scaleBits scale <<< 6) ||| (index.low <<< 3) ||| base.low
    sib >>> 6 = scaleBits scale ∧ (sib >>> 3) &&& 7 = index.low ∧ sib &&& 7 = base.low := by
  refine fields_of_lt ?_ (toNat_and_seven _) (toNat_and_seven _)
  unfold scaleBits
  split <;> [decide; (split <;> [decide; (split <;> decide)])]

lemma shiftLeft_scaleBits {scale : UInt8} (h : scale ∈ ([1, 2, 4, 8] : List UInt8)) :
    (1 : UInt8) <<< scaleBits scale = scale := by
  simp only [List.mem_cons, List.not_mem_nil, or_false] at h
  rcases h with rfl | rfl | rfl | rfl <;> rfl

lemma takeOperand_mode (mem : Mem) (hr : reg < 16) (high : r.reg = decide (8 ≤ reg)) (rm : UInt8)
    (rest : List UInt8) :
    takeOperand r (modrm mem.mode reg rm :: rest) =
      (takeMem r mem.mode (rm &&& 7) rest).map fun (mem, rest) => (reg, .mem mem, rest) := by
  obtain ⟨mode, field, low⟩ := fields_modrm mem.mode reg rm
  have memory : mem.mode &&& 3 = mem.mode ∧ mem.mode ≠ 3 := by
    obtain ⟨eq, -⟩ | ⟨eq, -⟩ | eq := mem.mode_cases <;> rw [eq] <;> decide
  rw [memory.1] at mode
  simp only [takeOperand, mode, memory.2, if_false, field, low, high, extend_and hr]

lemma Reg.ofNum_extend {high : Bool} {r : Reg} (h : high = decide (8 ≤ r.num)) :
    Reg.ofNum (extend high r.low) = r := by
  rw [h, Reg.low, extend_and r.num_lt, Reg.ofNum_num]

lemma takeMem_sib (mem : Mem) (base : r.base = decide (8 ≤ mem.base.num)) (index : Reg)
    (scale : UInt8) (rest : List UInt8) :
    takeMem r mem.mode 4 (((scaleBits scale <<< 6) ||| (index.low <<< 3) ||| mem.base.low) ::
      rest) = (takeDisp mem.mode rest).map fun (disp, rest) =>
        ({ base := mem.base, disp
           index :=
             if extend r.index index.low = 4 then none
             else some (.ofNum (extend r.index index.low), (1 : UInt8) <<< scaleBits scale) },
               rest) := by
  obtain ⟨shift, field, low⟩ := fields_sib scale index mem.base
  simp only [takeMem, if_true, shift, field, low, mem.not_baseless, if_false, Reg.ofNum_extend base]

lemma takeOperand_memOperand {mem : Mem} (valid : mem.Valid) (hr : reg < 16)
    (high : r.reg = decide (8 ≤ reg)) (base : r.base = decide (8 ≤ mem.base.num))
    (index : r.index = decide (8 ≤ (mem.index.map fun i => i.1.num).getD 0)) (rest : List UInt8) :
    takeOperand r (memOperand reg mem ++ rest) = some (reg, .mem mem, rest) := by
  have low : mem.base.low &&& 7 = mem.base.low := by rw [Reg.low, UInt8.and_assoc, UInt8.and_self]
  unfold memOperand
  rcases named : mem.index with _ | ⟨i, scale⟩
  case none =>
    have noIndex : r.index = false := by rw [index, named]; rfl
    by_cases four : mem.base.low = 4
    · -- An index byte with `rsp` for an index names none.
      have sib : ((4 : UInt8) <<< 3) ||| mem.base.low =
          (scaleBits 1 <<< 6) ||| (Reg.rsp.low <<< 3) ||| mem.base.low := rfl
      simp only [if_pos four, List.cons_append, List.nil_append]
      rw [takeOperand_mode mem hr high, show (4 : UInt8) &&& 7 = 4 from rfl, sib,
        takeMem_sib mem base, takeDisp_mode, noIndex, Option.map_some, Option.map_some,
          if_pos (by decide), ← named]
    · simp only [if_neg four, List.cons_append, List.nil_append]
      rw [takeOperand_mode mem hr high, low]
      simp only [takeMem, four, if_false, mem.not_baseless, takeDisp_mode, Option.map_some,
        Reg.ofNum_extend base, ← named]
  case some =>
    obtain ⟨notRsp, scaled⟩ := valid _ named
    have number : extend r.index i.low = i.num := by
      rw [index, named, Reg.low]
      exact extend_and i.num_lt
    have notFour : i.num ≠ 4 := by
      cases i <;> first | decide | exact absurd rfl notRsp
    simp only [List.cons_append, List.nil_append]
    rw [takeOperand_mode mem hr high, show (4 : UInt8) &&& 7 = 4 from rfl, takeMem_sib mem base,
      takeDisp_mode]
    simp only [Option.map_some, number, notFour, if_false, Reg.ofNum_num,
      shiftLeft_scaleBits scaled, ← named]

/-! ### Instructions -/

lemma Alu.extension_lt (op : Alu) : op.extension < 16 := by cases op <;> decide

section Forms

variable {lead opcode : List UInt8} {table : Rex → Option Form} {f : UInt8 → Operand → Tail}
  {tail : Tail} (wide force : Bool) {reg rm : UInt8} {mem : Mem}

variable (names : Names lead opcode table)
include names

/-- An instruction without operands after its opcode. -/
lemma Names.decode_bare (hm : rm < 16)
    (form : table (.of wide 0 0 rm force) = some (.bare tail)) (rest : List UInt8) :
    decode (lead ++ (rex wide 0 0 rm force ++ (opcode ++ rest))) = tail.read rest := by
  rw [names rest (by decide) (by decide) hm, form]
  rfl

lemma Names.decode_reg (hr : reg < 16) (hm : rm < 16)
    (form : table (.of wide reg 0 rm force) = some (.modrm f)) (rest : List UInt8) :
    decode (lead ++ (rex wide reg 0 rm force ++ (opcode ++ modrm 3 reg rm :: rest))) =
      (f reg (.reg rm)).read rest := by
  rw [names _ hr (by decide) hm, form, Option.bind_some, Form.read, takeOperand_modrm hr hm rfl rfl]
  rfl

lemma Names.decode_mem (hr : reg < 16) (valid : mem.Valid)
    (form : table (.of wide reg ((mem.index.map fun i => i.1.num).getD 0) mem.base.num force) =
      some (.modrm f)) (rest : List UInt8) :
    decode (lead ++ (rexMem wide reg mem force ++ (opcode ++ (memOperand reg mem ++ rest)))) =
      (f reg (.mem mem)).read rest := by
  have index : (mem.index.map fun i => i.1.num).getD 0 < 16 := by
    cases mem.index with
    | none => decide
    | some i => exact i.1.num_lt
  rw [rexMem, names _ hr index mem.base.num_lt, form, Option.bind_some, Form.read,
    takeOperand_memOperand valid hr rfl rfl rfl]
  rfl

/-- The number of a register, or an opcode extension, in the register field. -/
lemma Names.decode_regs (reg rm : UInt8) (form : table (.of wide reg 0 rm) = some (.modrm f))
    (rest : List UInt8)
    (hr : reg < 16 := by first | exact Reg.num_lt _ | exact Alu.extension_lt _ | decide)
    (hm : rm < 16 := by exact Reg.num_lt _) :
    decode (lead ++ (rex wide reg 0 rm ++ (opcode ++ modrm 3 reg rm :: rest))) =
      (f reg (.reg rm)).read rest :=
  names.decode_reg wide false hr hm form rest

lemma Names.decode_regMem (reg : UInt8) (valid : mem.Valid)
    (form : table (.of wide reg ((mem.index.map fun i => i.1.num).getD 0) mem.base.num) =
      some (.modrm f)) (rest : List UInt8)
    (hr : reg < 16 := by first | exact Reg.num_lt _ | exact Alu.extension_lt _ | decide) :
    decode (lead ++ (rexMem wide reg mem ++ (opcode ++ (memOperand reg mem ++ rest)))) =
      (f reg (.mem mem)).read rest :=
  names.decode_mem wide false hr valid form rest

end Forms

/-- The memory operand of an instruction. -/
def Instr.mem? : Instr → Option Mem
  | .movRM _ mem | .movMR mem _ | .movMI mem _ | .movzxByte _ mem | .movRM32 _
    mem | .movMRByte mem _
  | .movMR32 mem _ | .lea _ mem | .aluRM _ _ mem | .aluMI _ mem _ | .imulRM _ mem | .movsdRM _ mem
  | .movsdMR mem _ => some mem
  | _ => none

/-- The SSE registers of an instruction. -/
def Instr.xmms : Instr → List Xmm
  | .movsdRR a b | .sse _ a b | .ucomisd a b | .xorpd a b => [a, b]
  | .movsdRM x _ | .movsdMR _ x | .movqToXmm x _ | .movqFromXmm _ x | .cvtsi2sd x _ | .cvttsd2si _
    x => [x]
  | _ => []

/-- The registers whose low byte an instruction names without a REX byte. -/
def Instr.byteRegs : Instr → List Reg
  | .and8 a b | .or8 a b => [a, b]
  | _ => []

/-- An instruction whose operands the format has. -/
def Instr.Encodable (i : Instr) : Prop :=
  (∀ mem ∈ i.mem?, mem.Valid) ∧ (∀ x ∈ i.xmms, x.num < 16) ∧ ∀ r ∈ i.byteRegs,
    r ∉ ([.rsp, .rbp, .rsi, .rdi] : List Reg)

instance : DecidablePred Instr.Encodable := fun _ => inferInstanceAs (Decidable (_ ∧ _ ∧ _))

/-- Instructions without an index, an SSE register or a byte operand. -/
lemma encodable_of_none (noIndex : i.mem?.bind Mem.index = none) (noXmm : i.xmms = [])
    (noByte : i.byteRegs = []) :
    i.Encodable := by
  rw [Instr.Encodable, noXmm, noByte]
  refine ⟨fun mem names index named => ?_, List.forall_mem_nil _, List.forall_mem_nil _⟩
  rw [Option.mem_def.1 names] at noIndex
  cases named.symm.trans noIndex

@[simp]
lemma encodable_moveConst (dst : Reg) (value : Word) : (Instr.moveConst dst value).Encodable := by
  unfold Instr.moveConst
  split <;> [skip; split <;> [skip; split]] <;> exact encodable_of_none rfl rfl rfl

/-! Opcodes with a number in them. -/

lemma names_low (op : UInt8) (h : op ∈ ([0x50, 0x58, 0xB8] : List UInt8)) (r : Reg) :
    Names [] [op + r.low] (oneByte? · (op + r.low)) := by
  apply names_one
  simp only [List.mem_cons, List.not_mem_nil, or_false] at h
  rcases h with rfl | rfl | rfl <;> cases r <;> decide

lemma oneByte?_push (x : Rex) (r : Reg) :
    oneByte? x (0x50 + r.low) =
      some (.bare (.none (some (.push (.ofNum (extend x.base r.low)))))) := by
  cases r <;> rfl

lemma oneByte?_pop (x : Rex) (r : Reg) :
    oneByte? x (0x58 + r.low) =
      some (.bare (.none (some (.pop (.ofNum (extend x.base r.low)))))) := by
  cases r <;> rfl

lemma oneByte?_movImm (x : Rex) (r : Reg) : oneByte? x (0xB8 + r.low) =
      if x.wide then some (.bare
      (.word64 fun imm => some (.movImm64 (.ofNum (extend x.base r.low)) imm)))
      else some (.bare (.word32
        fun imm => some (.movImm32 (.ofNum (extend x.base r.low)) imm))) := by
  cases r <;> rfl

lemma oneByte?_opcode (x : Rex) (op : Alu) :
    oneByte? x op.opcode = some (.modrm fun reg => onReg fun rm =>
      if x.wide then some (.aluRR op rm (.ofNum reg))
      else if op = .xor ∧ rm = .ofNum reg then some (.clear rm)
      else none) := by
  cases op <;> rfl

lemma oneByte?_opcode_add_two (x : Rex) (op : Alu) :
    oneByte? x (op.opcode + 2) =
      some (wideOnly x fun reg => onMem fun mem => some (.aluRM op (.ofNum reg) mem)) := by
  cases op <;> rfl

lemma twoByte?_jcc (x : Rex) (cond : Cond) :
    twoByte? x (0x80 + cond.code) =
      some (.bare (.word32 fun disp => some (.jcc cond disp.toInt32))) := by
  cases cond <;> rfl

lemma twoByte?_setcc (x : Rex) (cond : Cond) :
    twoByte? x (0x90 + cond.code) =
      some (.modrm fun _ => onReg fun rm => (byteReg? x rm.num).map (.setcc cond)) := by
  cases cond <;> rfl

lemma doubleOp?_opcode (x : Rex) (op : SseOp) :
    doubleOp? x op.opcode = some (.modrm fun reg operand =>
      match operand with
      | .reg rm => .none (some (.sse op ⟨reg⟩ ⟨rm⟩))
      | .mem _ => .none none) := by
  cases op <;> rfl

@[simp]
lemma Alu.ofExtension?_extension (op : Alu) : Alu.ofExtension? (op.extension &&& 7) = some op := by
  cases op <;> rfl

/-- An opcode extension has no high bit. -/
lemma rex_extension (op : Alu) (base : UInt8) :
    rex true op.extension 0 base = rex true 0 0 base := by
  cases op <;> rfl

lemma byteReg?_of (r : Reg) (reg index base : UInt8) :
    byteReg? (.of false reg index base (needsByteRex r)) r.num = some r := by
  unfold byteReg?
  rw [if_neg, Reg.ofNum_num]
  rintro ⟨absent, four, eight⟩
  have forced : needsByteRex r = true := by simp [needsByteRex, four, eight]
  simp [forced] at absent

lemma byteReg?_of_not_mem {r : Reg} (h : r ∉ ([.rsp, .rbp, .rsi, .rdi] : List Reg)) (x : Rex) :
    byteReg? x r.num = some r := by
  unfold byteReg?
  rw [if_neg, Reg.ofNum_num]
  rintro ⟨-, four⟩
  revert h four
  cases r <;> decide

lemma rex_zero : rex false 0 0 0 = [] := rfl

attribute [simp] regForm memForm sseForm sseMemForm Tail.read onReg onMem group take32_bytes32
  take32_bytesOf take64_bytes64 rex_zero

/-- An instruction is read back from its bytes, whatever follows them. -/
lemma decode_encode (h : i.Encodable) (rest : List UInt8) :
    decode (i.encode ++ rest) = some (i, rest) := by
  obtain ⟨valid, xmm, low⟩ := h
  have zero_lt : (0 : UInt8) < 16 := by decide
  unfold Instr.encode
  cases i with
  | movRR dst src => simpa using (names_one 0x89).decode_regs true src.num dst.num rfl rest
  | clear dst =>
    simpa using (names_one 0x31).decode_regs false dst.num dst.num (oneByte?_opcode _ .xor) rest
  | movImm32 dst imm =>
    simpa [Reg.ofNum_extend] using
      (names_low 0xB8 (by decide) dst).decode_bare false false dst.num_lt (oneByte?_movImm _ dst)
        (bytes32 imm ++ rest)
  | movSigned dst imm =>
    simpa using (names_one 0xC7).decode_regs true 0 dst.num rfl (bytesOf imm ++ rest)
  | movImm64 dst imm =>
    simpa [Reg.ofNum_extend] using
      (names_low 0xB8 (by decide) dst).decode_bare true false dst.num_lt (oneByte?_movImm _ dst)
        (bytes64 imm.toUInt64 ++ rest)
  | movRM dst mem =>
    simpa using (names_one 0x8B).decode_regMem true dst.num (valid mem rfl) rfl rest
  | movMR mem src =>
    simpa using (names_one 0x89).decode_regMem true src.num (valid mem rfl) rfl rest
  | movMI mem imm =>
    simpa using (names_one 0xC7).decode_regMem true 0 (valid mem rfl) rfl (bytesOf imm ++ rest)
  | movzxByte dst mem =>
    simpa using (names_two 0xB6).decode_regMem true dst.num (valid mem rfl) rfl rest
  | movRM32 dst mem =>
    simpa using (names_one 0x8B).decode_regMem false dst.num (valid mem rfl) rfl rest
  | movMRByte mem src =>
    simpa [byteReg?_of] using (names_one 0x88).decode_mem false (needsByteRex src) src.num_lt
      (valid mem rfl) rfl rest
  | movMR32 mem src =>
    simpa using (names_one 0x89).decode_regMem false src.num (valid mem rfl) rfl rest
  | lea dst mem => simpa using (names_one 0x8D).decode_regMem true dst.num (valid mem rfl) rfl rest
  | movzxReg dst src => simpa using (names_two 0xB6).decode_regs true dst.num src.num rfl rest
  | aluRR op dst src =>
    simpa using
      (names_one op.opcode (by cases op <;> decide)).decode_regs true src.num dst.num
        (oneByte?_opcode _ op) rest
  | aluRI op dst imm =>
    by_cases fits : fitsByte imm
    · simpa [fits, takeInt8, toInt32_byteOf, aluImm, rex_extension] using
        (names_one 0x83).decode_regs true op.extension dst.num rfl (byteOf imm :: rest)
    · simpa [fits, aluImm, rex_extension] using
        (names_one 0x81).decode_regs true op.extension dst.num rfl (bytesOf imm ++ rest)
  | aluRM op dst mem =>
    simpa using
      (names_one (op.opcode + 2) (by cases op <;> decide)).decode_regMem true dst.num
        (valid mem rfl) (oneByte?_opcode_add_two _ op) rest
  | aluMI op mem imm =>
    by_cases fits : fitsByte imm
    · simpa [fits, takeInt8, toInt32_byteOf, aluImm] using
        (names_one 0x83).decode_regMem true op.extension (valid mem rfl) rfl (byteOf imm :: rest)
    · simpa [fits, aluImm] using
        (names_one 0x81).decode_regMem true op.extension (valid mem rfl) rfl (bytesOf imm ++ rest)
  | imulRR dst src => simpa using (names_two 0xAF).decode_regs true dst.num src.num rfl rest
  | imulRM dst mem =>
    simpa using (names_two 0xAF).decode_regMem true dst.num (valid mem rfl) rfl rest
  | imulRRI dst src imm =>
    by_cases fits : fitsByte imm
    · simpa [fits, takeInt8, toInt32_byteOf] using
        (names_one 0x6B).decode_regs true dst.num src.num rfl (byteOf imm :: rest)
    · simpa [fits] using (names_one 0x69).decode_regs true dst.num src.num rfl (bytesOf imm ++ rest)
  | idiv src => simpa using (names_one 0xF7).decode_regs true 7 src.num rfl rest
  | cqo => rfl
  | neg dst => simpa +decide using (names_one 0xF7).decode_regs true 3 dst.num rfl rest
  | not dst => simpa +decide using (names_one 0xF7).decode_regs true 2 dst.num rfl rest
  | shlImm dst count =>
    simpa +decide using (names_one 0xC1).decode_regs true 4 dst.num rfl (count :: rest)
  | sarImm dst count =>
    simpa +decide using (names_one 0xC1).decode_regs true 7 dst.num rfl (count :: rest)
  | shlCl dst => simpa +decide using (names_one 0xD3).decode_regs true 4 dst.num rfl rest
  | sarCl dst => simpa +decide using (names_one 0xD3).decode_regs true 7 dst.num rfl rest
  | test a b => simpa using (names_one 0x85).decode_regs true b.num a.num rfl rest
  | setcc cond dst =>
    simpa [byteReg?_of] using
      (names_two (0x90 + cond.code)).decode_reg false (needsByteRex dst) zero_lt dst.num_lt
        (twoByte?_setcc _ cond) rest
  | and8 dst src =>
    have low (r : Reg) (h : r = dst ∨ r = src) :=
      byteReg?_of_not_mem (low r (by simpa [Instr.byteRegs] using h))
    simpa [low] using (names_one 0x20).decode_regs false src.num dst.num rfl rest
  | or8 dst src =>
    have low (r : Reg) (h : r = dst ∨ r = src) :=
      byteReg?_of_not_mem (low r (by simpa [Instr.byteRegs] using h))
    simpa [low] using (names_one 0x08).decode_regs false src.num dst.num rfl rest
  | push reg =>
    simpa [Reg.ofNum_extend] using
      (names_low 0x50 (by decide) reg).decode_bare false false reg.num_lt (oneByte?_push _ reg) rest
  | pop reg =>
    simpa [Reg.ofNum_extend] using
      (names_low 0x58 (by decide) reg).decode_bare false false reg.num_lt (oneByte?_pop _ reg) rest
  | jmp disp =>
    simpa using (names_one 0xE9).decode_bare false false zero_lt rfl (bytesOf disp ++ rest)
  | jcc cond disp =>
    simpa using
      (names_two (0x80 + cond.code)).decode_bare false false zero_lt (twoByte?_jcc _ cond)
        (bytesOf disp ++ rest)
  | call reg => simpa +decide using (names_one 0xFF).decode_regs false 2 reg.num rfl rest
  | ret => rfl
  | movsdRR dst src =>
    simpa using (names_double 0x10).decode_reg false false (xmm dst (.head _))
      (xmm src (.tail _ (.head _))) rfl rest
  | movsdRM dst mem =>
    simpa using (names_double 0x10).decode_mem false false (xmm dst (.head _))
      (valid mem rfl) rfl rest
  | movsdMR mem src =>
    simpa using (names_double 0x11).decode_mem false false (xmm src (.head _))
      (valid mem rfl) rfl rest
  | movqToXmm dst src =>
    simpa using (names_packed 0x6E).decode_reg true false (xmm dst (.head _)) src.num_lt rfl rest
  | movqFromXmm dst src =>
    simpa using (names_packed 0x7E).decode_reg true false (xmm src (.head _)) dst.num_lt rfl rest
  | sse op dst src =>
    simpa using
      (names_double op.opcode).decode_reg false false (xmm dst (.head _))
        (xmm src (.tail _ (.head _))) (doubleOp?_opcode _ op) rest
  | ucomisd a b =>
    simpa using (names_packed 0x2E).decode_reg false false (xmm a (.head _))
      (xmm b (.tail _ (.head _))) rfl rest
  | xorpd dst src =>
    simpa using (names_packed 0x57).decode_reg false false (xmm dst (.head _))
      (xmm src (.tail _ (.head _))) rfl rest
  | cvtsi2sd dst src =>
    simpa using (names_double 0x2A).decode_reg true false (xmm dst (.head _)) src.num_lt rfl rest
  | cvttsd2si dst src =>
    simpa using (names_double 0x2C).decode_reg true false dst.num_lt (xmm src (.head _)) rfl rest

/-- No instruction is without bytes. -/
lemma encode_ne_nil (h : i.Encodable) : i.encode ≠ [] := by
  intro none
  have read := decode_encode h []
  rw [none] at read
  cases read

lemma decodeFrom_encodeAll {code : List Instr} (h : ∀ i ∈ code, i.Encodable) {fuel : Nat}
    (enough : (encodeAll code).length ≤ fuel) : decodeFrom fuel (encodeAll code) = some code := by
  induction code generalizing fuel with
  | nil => cases fuel <;> rfl
  | cons i code ih =>
    have bytes : encodeAll (i :: code) = i.encode ++ encodeAll code := rfl
    obtain ⟨b, more, first⟩ := List.exists_cons_of_ne_nil (encode_ne_nil (h i List.mem_cons_self))
    have read := decode_encode (h i List.mem_cons_self) (encodeAll code)
    rw [bytes, first, List.cons_append, List.length_cons, List.length_append] at enough
    obtain ⟨fuel, rfl⟩ : ∃ n, fuel = n + 1 := ⟨fuel - 1, by omega⟩
    rw [first, List.cons_append] at read
    have others := ih (fun i mem => h i (List.mem_cons_of_mem _ mem))
      (by omega : (encodeAll code).length ≤ fuel)
    simp only [bytes, first, List.cons_append, decodeFrom, read, Option.bind_eq_bind,
      Option.bind_some, others, Option.pure_def]

/-! ### Moves of constants -/

/-- The registers after a move of a constant, or after a clear, which is an exclusive or of the low
half of a register with itself.  A result of 32 bits clears the upper half of its register. -/
def Instr.move? (regs : Reg → Word) : Instr → Option (Reg → Word)
  | .clear dst =>
    let low := (regs dst).toUInt64.toUInt32
    some (Function.update regs dst (low ^^^ low).toUInt64.toInt64)
  | .movImm32 dst imm => some (Function.update regs dst imm.toUInt64.toInt64)
  | .movSigned dst imm => some (Function.update regs dst imm.toInt64)
  | .movImm64 dst imm => some (Function.update regs dst imm)
  | _ => none

/-- A word that is not negative and has no upper half is its lower half. -/
lemma toInt64_lowHalf (h : 0 ≤ value ∧ value ≤ 0xFFFFFFFF) :
    (Word.lowHalf value).toUInt64.toInt64 = value := by
  have range : 0 ≤ value.toInt ∧ value.toInt ≤ 4294967295 := by
    simpa [Int64.le_iff_toInt_le] using h
  have small : value.toUInt64.toNat < 2 ^ 32 := by
    rw [Int64.toNat_toUInt64_of_le h.1, Int64.toNatClampNeg]
    omega
  have halves : (Word.lowHalf value).toUInt64 = value.toUInt64 := by
    apply UInt64.toNat_inj.1
    rw [UInt32.toNat_toUInt64, Word.lowHalf, UInt64.toNat_toUInt32, Nat.mod_eq_of_lt small]
  rw [halves, Int64.toInt64_toUInt64]

/-- A word that fits 32 bits is their sign extension. -/
lemma toInt64_toInt32 (h : Word.fitsInt32 value) : value.toInt32.toInt64 = value := by
  have range : -2147483648 ≤ value.toInt ∧ value.toInt ≤ 2147483647 := by
    simpa [Word.fitsInt32, Int64.le_iff_toInt_le] using h
  apply Int64.toInt_inj.1
  rw [Int32.toInt_toInt64, Int64.toInt_toInt32]
  exact Int.bmod_eq_of_le (by omega) (by omega)

lemma move?_moveConst (dst : Reg) (value : Word) (regs : Reg → Word) :
    (Instr.moveConst dst value).move? regs = some (Function.update regs dst value) := by
  unfold Instr.moveConst
  split
  case isTrue zero =>
    rw [Instr.move?, UInt32.xor_self, zero]
    rfl
  case isFalse =>
    split
    case isTrue unsigned => rw [Instr.move?, toInt64_lowHalf unsigned]
    case isFalse =>
      split
      case isTrue fits => rw [Instr.move?, toInt64_toInt32 fits]
      case isFalse => rfl

/-- **Instructions in a row are read back from their bytes**: all of them, with their operands, and
to the last byte. The shortest move of a constant is read back as an instruction that moves just
that constant. -/
theorem decodeAll_encodeAll {code : List Instr} (h : ∀ i ∈ code, i.Encodable) :
    decodeAll (encodeAll code) = some code ∧
      ∀ dst value rest, ∃ i, decode ((Instr.moveConst dst value).encode ++ rest) = some (i, rest) ∧
        ∀ regs, i.move? regs = some (Function.update regs dst value) :=
  ⟨decodeFrom_encodeAll h (Nat.le_refl _), fun dst value rest =>
    ⟨_, decode_encode (encodable_moveConst dst value) rest, move?_moveConst dst value⟩⟩

/-- Instructions with bases that need an index byte or a displacement, high registers in every
field, byte registers that need a REX byte, and both widths of displacements and immediates. -/
def corners : List Instr :=
  [.movRM .r9 ⟨.r13, 0, none⟩, .movMR ⟨.rsp, 8, none⟩ .rdi, .lea .rax ⟨.r12, -129, some (.r15, 8)⟩,
    .aluMI .cmp ⟨.rbp, 127, some (.rcx, 2)⟩ (-128), .aluRI .sub .r8 128,
    .movMRByte ⟨.r10, 1, none⟩ .rsi, .setcc .g .rdi, .and8 .rdx .r11, .jcc .ne (-6),
    .movImm64 .r14 0x123456789ABCDEF, .clear .r8, .movsdRM ⟨15⟩ ⟨.rbp, 0, none⟩, .movqToXmm ⟨0⟩ .r8,
      .sse .div ⟨9⟩ ⟨1⟩]

theorem decodeAll_encodeAll_corners :
    (∀ i ∈ corners, i.Encodable) ∧ decodeAll (encodeAll corners) = some corners :=
  have encodable : ∀ i ∈ corners, i.Encodable := by decide
  ⟨encodable, (decodeAll_encodeAll encodable).1⟩

end StackMachine.X64
