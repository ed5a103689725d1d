import Mathlib.Data.Nat.Bitwise
import StackMachine.A64.Instruction
import StackMachine.Proofs.Resolution

/-!
# The format of AArch64 instructions

An instruction is a word of 32 bits, made of fields.  `decode` reads the fields of a word as the
architecture lays them out; the names of instructions that are special cases of others (moves,
comparisons, constant shifts, truth values) do not appear there.  The word of an instruction is read
back as the form that the instruction stands for (`decode_encode`), with its operands reduced to the
width of their fields.
-/

namespace StackMachine.A64

/-! ### Fields -/

/-- The bits of a number in a field. -/
def bits (n low width : Nat) : Nat := n / 2 ^ low % 2 ^ width

section bits

variable {n low width width' k bound : Nat}

lemma bits_or (m n low width : Nat) :
    bits (m ||| n) low width = bits m low width ||| bits n low width := by
  refine Nat.eq_of_testBit_eq fun i => ?_
  simp only [bits, Nat.testBit_or, Nat.testBit_mod_two_pow, Nat.testBit_div_two_pow]
  rw [Bool.and_or_distrib_left]

/-- A number that has been put into a field. -/
lemma bits_shiftLeft (fits : n < 2 ^ width) : bits (n <<< low) low width = n := by
  rw [bits, Nat.shiftLeft_eq, Nat.mul_div_cancel _ (Nat.two_pow_pos low), Nat.mod_eq_of_lt fits]

lemma shiftLeft_lt (fits : n < 2 ^ width) (le : k + width ≤ bound) : n <<< k < 2 ^ bound := by
  rw [Nat.shiftLeft_eq]
  calc n * 2 ^ k < 2 ^ width * 2 ^ k := Nat.mul_lt_mul_of_pos_right fits (Nat.two_pow_pos k)
    _ = 2 ^ (k + width) := by rw [Nat.pow_add, Nat.mul_comm]
    _ ≤ 2 ^ bound := Nat.pow_le_pow_right (by decide) le

/-- A number that has been put below a field. -/
lemma bits_shiftLeft_of_lt (fits : n < 2 ^ width) (le : k + width ≤ low) :
    bits (n <<< k) low width' = 0 := by
  rw [bits, Nat.div_eq_of_lt (shiftLeft_lt fits le), Nat.zero_mod]

/-- A number that has been put above a field. -/
lemma bits_shiftLeft_of_le (le : low + width ≤ k) : bits (n <<< k) low width = 0 := by
  obtain ⟨gap, rfl⟩ := Nat.exists_eq_add_of_le le
  rw [bits, Nat.shiftLeft_eq, Nat.add_assoc, Nat.pow_add, Nat.mul_left_comm,
    Nat.mul_div_cancel_left _ (Nat.two_pow_pos low), Nat.pow_add, Nat.mul_left_comm,
      Nat.mul_mod_right]

end bits

/-- The register with a number below 32. -/
def Reg.ofNum (n : Nat) : Reg := Reg.all.getD n .sp

@[simp]
lemma Reg.ofNum_num (r : Reg) : Reg.ofNum r.num.toNat = r := by cases r <;> rfl

lemma Reg.num_lt (r : Reg) : r.num.toNat < 2 ^ 5 := by cases r <;> decide

/-- The float register with a number below 32. -/
def DReg.ofNum (n : Nat) : DReg := ⟨UInt8.ofNat n⟩

/-- The condition with a code; the last two codes always hold. -/
def Cond.ofCode (n : Nat) : Cond := Cond.all.getD n .al

@[simp]
lemma Cond.ofCode_code (c : Cond) : Cond.ofCode c.code.toNat = c := by cases c <;> rfl

lemma Cond.code_lt (c : Cond) : c.code.toNat < 2 ^ 4 := by cases c <;> decide

/-! ### Forms -/

/-- Bitwise operations. -/
inductive Logic where
  | and | orr | eor
  deriving DecidableEq, Repr

/-- What a wide move does with the other halves: it sets them, clears them, or keeps them. -/
inductive WideMove where
  | ones | zeros | keep
  deriving DecidableEq, Repr

/-- How an access of a pair uses its base register: with an offset, after moving the register by the
offset, or before it does so. -/
inductive Indexing where
  | offset | before | after
  deriving DecidableEq, Repr

/-- Instructions of the architecture on 64-bit registers.  Offsets and displacements are in
bytes. -/
inductive Form where
  | addSubImm (subtract setFlags : Bool) (rd rn : Reg) (imm : Nat)
  /-- The last register is shifted to the left. -/
  | addSubReg (subtract setFlags : Bool) (rd rn rm : Reg) (shift : Nat)
  | logical (op : Logic) (inverted : Bool) (rd rn rm : Reg) (shift : Nat)
  | moveWide (kind : WideMove) (rd : Reg) (imm half : Nat)
  | bitfield (signed : Bool) (rd rn : Reg) (rotate top : Nat)
  | divide (rd rn rm : Reg)
  | shift (left : Bool) (rd rn rm : Reg)
  /-- Adds a product to `ra`, or subtracts it. -/
  | multiply (subtract : Bool) (rd rn rm ra : Reg)
  /-- Selects `rn` when the condition holds, and else `rm` or the number after it. -/
  | select (increment : Bool) (rd rn rm : Reg) (cond : Cond)
  | access (load : Bool) (rt rn : Reg) (offset : Nat)
  | pair (load : Bool) (indexing : Indexing) (rt1 rt2 rn : Reg) (offset : Int)
  | pairD (load : Bool) (rt1 rt2 : DReg) (rn : Reg) (offset : Int)
  | branch (disp : Int)
  | branchCond (cond : Cond) (disp : Int)
  | branchZero (nonzero : Bool) (rt : Reg) (disp : Int)
  | call (rn : Reg)
  | ret (rn : Reg)
  deriving DecidableEq, Repr

/-! ### Reading

Each group of instructions has its own fields.  Bits 24 to 31 name the group, and some of the
operation. -/

/-- Is a bit set? -/
def flag (n i : Nat) : Bool := bits n i 1 == 1

/-- The first register of a word, mostly the destination. -/
def rdOf (n : Nat) : Reg := .ofNum (bits n 0 5)

/-- The second register of a word. -/
def rnOf (n : Nat) : Reg := .ofNum (bits n 5 5)

/-- The third register of a word. -/
def rmOf (n : Nat) : Reg := .ofNum (bits n 16 5)

def readAddSubImm (n : Nat) : Option Form :=
  if flag n 23 then none
  else
    let imm := bits n 10 12
    some (.addSubImm (flag n 30) (flag n 29) (rdOf n) (rnOf n) (if flag n 22 then imm <<< 12
      else imm))

def readAddSubReg (n : Nat) : Option Form :=
  if bits n 21 3 = 0 then some (.addSubReg (flag n 30) (flag n 29) (rdOf n) (rnOf n) (rmOf n)
    (bits n 10 6)) else none

def readLogical (op : Logic) (n : Nat) : Option Form :=
  if bits n 22 2 = 0 then some (.logical op (flag n 21) (rdOf n) (rnOf n) (rmOf n) (bits n 10 6))
    else none

def readMoveWide (kind : WideMove) (n : Nat) : Option Form :=
  if flag n 23 then some (.moveWide kind (rdOf n) (bits n 5 16) (bits n 21 2)) else none

def readBitfield (signed : Bool) (n : Nat) : Option Form :=
  if bits n 22 2 = 1 then some (.bitfield signed (rdOf n) (rnOf n) (bits n 16 6) (bits n 10 6))
    else none

def readTwoSource (n : Nat) : Option Form :=
  match bits n 10 6 with
  | 3 => some (.divide (rdOf n) (rnOf n) (rmOf n))
  | 8 => some (.shift true (rdOf n) (rnOf n) (rmOf n))
  | 10 => some (.shift false (rdOf n) (rnOf n) (rmOf n))
  | _ => none

def readSelect (n : Nat) : Option Form :=
  if flag n 11 then none
  else some (.select (flag n 10) (rdOf n) (rnOf n) (rmOf n) (.ofCode (bits n 12 4)))

def readMultiply (n : Nat) : Option Form :=
  if bits n 21 3 = 0 then some
    (.multiply (flag n 15) (rdOf n) (rnOf n) (rmOf n) (.ofNum (bits n 10 5))) else none

def readAccess (n : Nat) : Option Form :=
  if flag n 23 then none else some (.access (flag n 22) (rdOf n) (rnOf n) (8 * bits n 10 12))

/-- The offset of a pair. -/
def pairDisp (n : Nat) : Int := 8 * (bits n 15 7 : Int).bmod (2 ^ 7)

def readPair (indexing : Indexing) (n : Nat) : Option Form :=
  some (.pair (flag n 22) indexing (rdOf n) (.ofNum (bits n 10 5)) (rnOf n) (pairDisp n))

def readPairD (n : Nat) : Option Form :=
  if flag n 23 then none
  else some (.pairD (flag n 22) (.ofNum (bits n 0 5)) (.ofNum (bits n 10 5)) (rnOf n) (pairDisp n))

def readJump (n : Nat) : Option Form :=
  if bits n 0 5 = 0 then
    match bits n 10 14 with
    | 0xFC0 => some (.call (rnOf n))
    | 0x17C0 => some (.ret (rnOf n))
    | _ => none
  else none

def readGroup (group : Nat) (word : UInt32) : Option Form :=
  let n := word.toNat
  match group with
  | 0x91 | 0xB1 | 0xD1 | 0xF1 => readAddSubImm n
  | 0x8B | 0xAB | 0xCB | 0xEB => readAddSubReg n
  | 0x8A => readLogical .and n
  | 0xAA => readLogical .orr n
  | 0xCA => readLogical .eor n
  | 0x92 => readMoveWide .ones n
  | 0xD2 => readMoveWide .zeros n
  | 0xF2 => readMoveWide .keep n
  | 0x93 => readBitfield true n
  | 0xD3 => readBitfield false n
  | 0x9A =>
    if bits n 21 3 = 6 then readTwoSource n else if bits n 21 3 = 4 then readSelect n else none
  | 0x9B => readMultiply n
  | 0xF9 => readAccess n
  | 0xA8 => if flag n 23 then readPair .after n else none
  | 0xA9 => readPair (if flag n 23 then .before else .offset) n
  | 0x6D => readPairD n
  | 0x14 | 0x15 | 0x16 | 0x17 => some (.branch (SiteKind.imm26.displacement word))
  | 0x54 =>
    if flag n 4 then none
      else some (.branchCond (.ofCode (bits n 0 4)) (SiteKind.imm19.displacement word))
  | 0xB4 => some (.branchZero false (rdOf n) (SiteKind.imm19.displacement word))
  | 0xB5 => some (.branchZero true (rdOf n) (SiteKind.imm19.displacement word))
  | 0xD6 => readJump n
  | _ => none

def decode (word : UInt32) : Option Form := readGroup (bits word.toNat 24 8) word

/-! ### What instructions stand for -/

/-- The form of an operation on registers. -/
def RegOp.form (rd rn rm : Reg) : RegOp → Form
  | .add => .addSubReg false false rd rn rm 0
  | .sub => .addSubReg true false rd rn rm 0
  | .mul => .multiply false rd rn rm Reg.zr
  | .sdiv => .divide rd rn rm
  | .and => .logical .and false rd rn rm 0
  | .orr => .logical .orr false rd rn rm 0
  | .eor => .logical .eor false rd rn rm 0
  | .lslv => .shift true rd rn rm
  | .asrv => .shift false rd rn rm

/-- The form of an instruction on integers, pairs of registers and control.  Operands are reduced to
the width of their fields. -/
def Instr.form? : Instr → Option Form
  | .reg op rd rn rm => some (op.form rd rn rm)
  | .addShifted rd rn rm shift => some (.addSubReg false false rd rn rm (shift.toNat % 2 ^ 6))
  | .addImm rd rn imm => some (.addSubImm false false rd rn (imm.toNat % 2 ^ 12))
  | .subImm rd rn imm => some (.addSubImm true false rd rn (imm.toNat % 2 ^ 12))
  | .msub rd rn rm ra => some (.multiply true rd rn rm ra)
  | .mvn rd rm => some (.logical .orr true rd Reg.zr rm 0)
  | .lslImm rd rn shift =>
    let count := shift.toNat % 2 ^ 6
    some (.bitfield false rd rn ((64 - count) % 2 ^ 6) (63 - count))
  | .asrImm rd rn shift => some (.bitfield true rd rn (shift.toNat % 2 ^ 6) 63)
  | .movz rd imm half => some (.moveWide .zeros rd imm.toNat (half.toNat % 2 ^ 2))
  | .movk rd imm half => some (.moveWide .keep rd imm.toNat (half.toNat % 2 ^ 2))
  | .movn rd imm half => some (.moveWide .ones rd imm.toNat (half.toNat % 2 ^ 2))
  | .cmp rn rm => some (.addSubReg true true Reg.zr rn rm 0)
  | .cmpImm rn imm => some (.addSubImm true true Reg.zr rn (imm.toNat % 2 ^ 12))
  | .cmnImm rn imm => some (.addSubImm false true Reg.zr rn (imm.toNat % 2 ^ 12))
  | .cset rd cond => some (.select true rd Reg.zr Reg.zr cond.invert)
  | .csel rd rn rm cond => some (.select false rd rn rm cond)
  | .ldr rt rn offset => some (.access true rt rn (8 * (offset.toNat / 8 % 2 ^ 12)))
  | .str rt rn offset => some (.access false rt rn (8 * (offset.toNat / 8 % 2 ^ 12)))
  | .stp rt1 rt2 rn offset =>
    some (.pair false .offset rt1 rt2 rn (8 * (offset / 8).toInt.bmod (2 ^ 7)))
  | .ldp rt1 rt2 rn offset =>
    some (.pair true .offset rt1 rt2 rn (8 * (offset / 8).toInt.bmod (2 ^ 7)))
  | .stpPre rt1 rt2 offset =>
    some (.pair false .before rt1 rt2 .sp (8 * (offset / 8).toInt.bmod (2 ^ 7)))
  | .ldpPost rt1 rt2 offset =>
    some (.pair true .after rt1 rt2 .sp (8 * (offset / 8).toInt.bmod (2 ^ 7)))
  | .stpD rt1 rt2 rn offset =>
    some (.pairD false ⟨rt1.id &&& 0x1F⟩ ⟨rt2.id &&& 0x1F⟩ rn (8 * (offset / 8).toInt.bmod (2 ^ 7)))
  | .ldpD rt1 rt2 rn offset =>
    some (.pairD true ⟨rt1.id &&& 0x1F⟩ ⟨rt2.id &&& 0x1F⟩ rn (8 * (offset / 8).toInt.bmod (2 ^ 7)))
  | .b offset => some (.branch (4 * (offset / 4).toInt.bmod (2 ^ 26)))
  | .bCond cond offset => some (.branchCond cond (4 * (offset / 4).toInt.bmod (2 ^ 19)))
  | .cbz rn offset => some (.branchZero false rn (4 * (offset / 4).toInt.bmod (2 ^ 19)))
  | .cbnz rn offset => some (.branchZero true rn (4 * (offset / 4).toInt.bmod (2 ^ 19)))
  | .blr rn => some (.call rn)
  | .ret => some (.ret .lr)
  | _ => none

/-! ### Words in fields

A word is put together from fields.  Where a field stands, its number is read back; elsewhere, what
the word started from. -/

lemma toNat_and_mask (x : UInt32) {mask : UInt32} (width : Nat)
    (ones : mask.toNat = 2 ^ width - 1) :
    (x &&& mask).toNat = x.toNat % 2 ^ width := by
  rw [UInt32.toNat_and, ones, Nat.and_two_pow_sub_one_eq_mod]

lemma toNat_and_mask8 (x : UInt8) {mask : UInt8} (width : Nat) (ones : mask.toNat = 2 ^ width - 1) :
    (x &&& mask).toUInt32.toNat = x.toNat % 2 ^ width := by
  rw [UInt8.toNat_toUInt32, UInt8.toNat_and, ones, Nat.and_two_pow_sub_one_eq_mod]

/-- A number for some bits of a word. -/
structure Field where
  low : Nat
  width : Nat
  word : UInt32
  value : Nat
  toNat_word : word.toNat = value
  fits : value < 2 ^ width

namespace Field

/-- The number in its place. -/
def placed (f : Field) : UInt32 := if f.low = 0 then f.word else f.word <<< UInt32.ofNat f.low

lemma toNat_placed (f : Field) (short : f.low < 32) (inWord : f.low + f.width ≤ 32) :
    f.placed.toNat = f.value <<< f.low := by
  have small : f.value <<< f.low < 2 ^ 32 := shiftLeft_lt f.fits inWord
  unfold placed
  split
  case isTrue first => rw [first, f.toNat_word, Nat.shiftLeft_zero]
  case isFalse =>
    rw [UInt32.toNat_shiftLeft, UInt32.toNat_ofNat_of_lt' (Nat.lt_trans short (by decide)),
      Nat.mod_eq_of_lt short, f.toNat_word, Nat.mod_eq_of_lt small]

/-- The number of a register. -/
abbrev reg (low : Nat) (r : Reg) : Field := ⟨low, 5, r.num, r.num.toNat, rfl, r.num_lt⟩

/-- The code of a condition. -/
abbrev cond (low : Nat) (c : Cond) : Field := ⟨low, 4, c.code, c.code.toNat, rfl, c.code_lt⟩

/-- A number reduced to the width of its field. -/
abbrev masked (low width : Nat) (x mask : UInt32) (ones : mask.toNat = 2 ^ width - 1) : Field :=
  ⟨low, width, x &&& mask, x.toNat % 2 ^ width, toNat_and_mask x width ones,
    Nat.mod_lt _ (Nat.two_pow_pos _)⟩

abbrev masked8 (low width : Nat) (x mask : UInt8) (ones : mask.toNat = 2 ^ width - 1) : Field :=
  ⟨low, width, (x &&& mask).toUInt32, x.toNat % 2 ^ width, toNat_and_mask8 x width ones,
    Nat.mod_lt _ (Nat.two_pow_pos _)⟩

end Field

/-- A word with fields. -/
def put (base : UInt32) : List Field → UInt32
  | [] => base
  | f :: rest => put base rest ||| f.placed

section put

variable {base word : UInt32} {low width low' width' value : Nat} {toNat_word : word.toNat = value}
  {fits : value < 2 ^ width} {rest : List Field}

lemma put_nil (base : UInt32) : put base [] = base := rfl

/-- The bits of a field are those of its number. -/
lemma bits_put_field (short : low < 32) (inWord : low + width ≤ 32) :
    bits (put base (⟨low, width, word, value, toNat_word, fits⟩ :: rest)).toNat low width =
      bits (put base rest).toNat low width ||| value := by
  rw [put, UInt32.toNat_or, bits_or, Field.toNat_placed _ short inWord, bits_shiftLeft fits]

/-- Bits apart from a field are those of the word without it. -/
lemma bits_put_apart (apart : low' + width' ≤ low ∨ low + width ≤ low') (short : low < 32)
    (inWord : low + width ≤ 32) :
    bits (put base (⟨low, width, word, value, toNat_word, fits⟩ :: rest)).toNat low' width' =
      bits (put base rest).toNat low' width' := by
  rw [put, UInt32.toNat_or, bits_or, Field.toNat_placed _ short inWord,
    apart.elim bits_shiftLeft_of_le (bits_shiftLeft_of_lt fits), Nat.or_zero]

lemma bits_or_of_free {n : Nat} (free : bits n low width = 0) :
    bits n low width ||| value = value := by
  rw [free, Nat.zero_or]

end put

/-! ### Instructions -/

lemma decode_reg (op : RegOp) (rd rn rm : Reg) :
    decode (Instr.reg op rd rn rm).encode = some (op.form rd rn rm) := by
  show decode (put op.base [.reg 0 rd, .reg 5 rn, .reg 16 rm]) = _
  cases op <;> simp (disch := decide) only [decode, bits_put_apart, put_nil]
  case add | sub =>
    show readAddSubReg _ = _
    simp (disch := decide) only [readAddSubReg, flag, rdOf, rnOf, rmOf, bits_put_apart,
      bits_put_field, put_nil, bits_or_of_free, Reg.ofNum_num]
    rfl
  case and | orr | eor =>
    show readLogical _ _ = _
    simp (disch := decide) only [readLogical, flag, rdOf, rnOf, rmOf, bits_put_apart,
      bits_put_field, put_nil, bits_or_of_free, Reg.ofNum_num]
    rfl
  case mul =>
    show readMultiply _ = _
    simp (disch := decide) only [readMultiply, flag, rdOf, rnOf, rmOf, bits_put_apart,
      bits_put_field, put_nil, bits_or_of_free, Reg.ofNum_num]
    rfl
  case sdiv | lslv | asrv =>
    show (if _ = _ then readTwoSource _ else _) = _
    simp (disch := decide) only [readTwoSource, rdOf, rnOf, rmOf, bits_put_apart, bits_put_field,
      put_nil, bits_or_of_free, Reg.ofNum_num]
    rfl

lemma decode_shiftImm (rd rn : Reg) (shift : UInt8) :
    decode (Instr.lslImm rd rn shift).encode = (Instr.lslImm rd rn shift).form? ∧
      decode (Instr.asrImm rd rn shift).encode = (Instr.asrImm rd rn shift).form? := by
  have mask : (shift &&& 0x3F).toUInt32.toNat = shift.toNat % 2 ^ 6 := toNat_and_mask8 shift 6 rfl
  have small : shift.toNat % 2 ^ 6 < 64 := Nat.mod_lt _ (by decide)
  have sub {n : UInt32} (le : 63 ≤ n.toNat) :
      (n - (shift &&& 0x3F).toUInt32).toNat = n.toNat - shift.toNat % 2 ^ 6 := by
    rw [UInt32.toNat_sub_of_le _ _ (UInt32.le_iff_toNat_le.2 (by omega)), mask]
  have rotate : ((64 - (shift &&& 0x3F).toUInt32) &&& 0x3F).toNat = (64 - shift.toNat % 2 ^ 6) % 2 ^
    6 := by
    rw [toNat_and_mask _ 6 rfl, sub (by decide)]
    rfl
  constructor
  · show decode (put 0xD3400000 [.reg 0 rd, .reg 5 rn,
      ⟨10, 6, _, 63 - shift.toNat % 2 ^ 6, sub (n := 63) (by decide), by omega⟩,
      ⟨16, 6, _, _, rotate, Nat.mod_lt _ (by decide)⟩]) = _
    simp (disch := decide) only [decode, bits_put_apart, put_nil]
    show readBitfield _ _ = _
    simp (disch := decide) only [readBitfield, rdOf, rnOf, bits_put_apart, bits_put_field, put_nil,
      bits_or_of_free, Reg.ofNum_num]
    rfl
  · show decode (put 0x9340FC00 [.reg 0 rd, .reg 5 rn, .masked8 16 6 shift 0x3F rfl]) = _
    simp (disch := decide) only [decode, bits_put_apart, put_nil]
    show readBitfield _ _ = _
    simp (disch := decide) only [readBitfield, rdOf, rnOf, bits_put_apart, bits_put_field, put_nil,
      bits_or_of_free, Reg.ofNum_num]
    rfl

lemma decode_addShifted (rd rn rm : Reg) (shift : UInt8) :
    decode (Instr.addShifted rd rn rm shift).encode = (Instr.addShifted rd rn rm shift).form? := by
  show decode (put 0x8B000000 [.reg 0 rd, .reg 5 rn, .reg 16 rm, .masked8 10 6 shift 0x3F rfl]) = _
  simp (disch := decide) only [decode, bits_put_apart, put_nil]
  show readAddSubReg _ = _
  simp (disch := decide) only [readAddSubReg, flag, rdOf, rnOf, rmOf, bits_put_apart,
    bits_put_field, put_nil, bits_or_of_free, Reg.ofNum_num]
  rfl

/-- The word of a multiplication that subtracts. -/
lemma decode_msub (rd rn rm ra : Reg) :
    decode (Instr.msub rd rn rm ra).encode = (Instr.msub rd rn rm ra).form? := by
  show decode (put 0x9B008000 [.reg 0 rd, .reg 5 rn, .reg 16 rm, .reg 10 ra]) = _
  simp (disch := decide) only [decode, bits_put_apart, put_nil]
  show readMultiply _ = _
  simp (disch := decide) only [readMultiply, flag, rdOf, rnOf, rmOf, bits_put_apart, bits_put_field,
    put_nil, bits_or_of_free, Reg.ofNum_num]
  rfl

/-- A truth value is the number after zero, unless the condition fails. -/
lemma decode_cset (rd : Reg) (cond : Cond) :
    decode (Instr.cset rd cond).encode = (Instr.cset rd cond).form? := by
  show decode (put 0x9A9F07E0 [.reg 0 rd, .cond 12 cond.invert]) = _
  simp (disch := decide) only [decode, bits_put_apart, put_nil]
  show (if _ = 6 then readTwoSource _ else if _ = 4 then readSelect _ else none) = _
  simp (disch := decide) only [readSelect, flag, rdOf, rnOf, rmOf, bits_put_apart, bits_put_field,
    put_nil, bits_or_of_free, Reg.ofNum_num, Cond.ofCode_code]
  rfl

lemma decode_csel (rd rn rm : Reg) (cond : Cond) :
    decode (Instr.csel rd rn rm cond).encode = (Instr.csel rd rn rm cond).form? := by
  show decode (put 0x9A800000 [.reg 0 rd, .reg 5 rn, .reg 16 rm, .cond 12 cond]) = _
  simp (disch := decide) only [decode, bits_put_apart, put_nil]
  show (if _ = 6 then readTwoSource _ else if _ = 4 then readSelect _ else none) = _
  simp (disch := decide) only [readSelect, flag, rdOf, rnOf, rmOf, bits_put_apart, bits_put_field,
    put_nil, bits_or_of_free, Reg.ofNum_num, Cond.ofCode_code]
  rfl

/-- What the words of additions and subtractions with an immediate start from. -/
def addSubBase (subtract setFlags : Bool) : UInt32 :=
  match subtract, setFlags with
  | false, false => 0x91000000
  | false, true => 0xB1000000
  | true, false => 0xD1000000
  | true, true => 0xF1000000

lemma decode_addSubImm (subtract setFlags : Bool) (rd rn : Reg) (imm : UInt16) :
    decode (immFields (addSubBase subtract setFlags) imm.toUInt32 rn.num rd.num) =
      some (.addSubImm subtract setFlags rd rn (imm.toNat % 2 ^ 12)) := by
  show decode (put _ [.reg 0 rd, .reg 5 rn, .masked 10 12 imm.toUInt32 0xFFF rfl]) = _
  cases subtract <;> cases setFlags
  all_goals
    simp (disch := decide) only [decode, bits_put_apart, put_nil]
    show readAddSubImm _ = _
    simp (disch := decide) only [readAddSubImm, flag, rdOf, rnOf, bits_put_apart, bits_put_field,
      put_nil, bits_or_of_free, Reg.ofNum_num, UInt16.toNat_toUInt32]
    rfl

/-- What the words of wide moves start from. -/
def WideMove.base : WideMove → UInt32
  | .ones => 0x92800000
  | .zeros => 0xD2800000
  | .keep => 0xF2800000

lemma decode_moveWide (kind : WideMove) (rd : Reg) (imm : UInt16) (half : UInt8) :
    decode (halfFields kind.base imm half rd.num) =
      some (.moveWide kind rd imm.toNat (half.toNat % 2 ^ 2)) := by
  show decode (put kind.base [.reg 0 rd, ⟨5, 16, _, _, UInt16.toNat_toUInt32 imm, imm.toNat_lt⟩,
    .masked8 21 2 half 3 rfl]) = _
  cases kind
  all_goals
    simp (disch := decide) only [decode, bits_put_apart, put_nil]
    show readMoveWide _ _ = _
    simp (disch := decide) only [readMoveWide, flag, rdOf, bits_put_apart, bits_put_field, put_nil,
      bits_or_of_free, Reg.ofNum_num]
    rfl

lemma decode_access (load : Bool) (rt rn : Reg) (offset : UInt32) :
    decode (immFields (if load then 0xF9400000 else 0xF9000000) (offset / 8) rn.num rt.num) =
      some (.access load rt rn (8 * (offset.toNat / 8 % 2 ^ 12))) := by
  show decode (put _ [.reg 0 rt, .reg 5 rn, .masked 10 12 (offset / 8) 0xFFF rfl]) = _
  cases load
  all_goals
    simp (disch := decide) only [decode, bits_put_apart, put_nil]
    show readAccess _ = _
    simp (disch := decide) only [readAccess, flag, rdOf, rnOf, bits_put_apart, bits_put_field,
      put_nil, bits_or_of_free, Reg.ofNum_num, UInt32.toNat_div]
    rfl

/-- What the words of accesses of pairs start from. -/
def pairBase : Bool → Indexing → UInt32
  | false, .offset => 0xA9000000
  | true, .offset => 0xA9400000
  | false, .before => 0xA9800000
  | true, .before => 0xA9C00000
  | false, .after => 0xA8800000
  | true, .after => 0xA8C00000

/-- A signed number reduced to the width of a field is read back as its residue next to zero. -/
lemma bmod_toNat_mod (y : Int32) {width : Nat} (narrow : width ≤ 32) :
    ((y.toUInt32.toNat % 2 ^ width : Nat) : Int).bmod (2 ^ width) = y.toInt.bmod (2 ^ width) := by
  have signed : y.toInt = (y.toUInt32.toNat : Int).bmod (2 ^ 32) := BitVec.toInt_eq_toNat_bmod _
  rw [signed, Int.bmod_bmod_of_dvd (Nat.pow_dvd_pow 2 narrow), Int.natCast_mod, Int.emod_bmod]

lemma decode_pair (load : Bool) (indexing : Indexing) (rt1 rt2 rn : Reg) (offset : Int16) :
    decode (pairFields (pairBase load indexing) rt1.num rt2.num rn.num offset) =
      some (.pair load indexing rt1 rt2 rn (8 * (offset / 8).toInt.bmod (2 ^ 7))) := by
  show decode (put _ [.reg 0 rt1, .reg 5 rn, .reg 10 rt2,
    .masked 15 7 (offset / 8).toInt32.toUInt32 0x7F rfl]) = _
  cases load <;> cases indexing
  all_goals
    simp (disch := decide) only [decode, bits_put_apart, put_nil]
    first
    | show readPair (if flag _ 23 then .before else .offset) _ = _
    | show (if flag _ 23 then readPair .after _ else none) = _
    simp (disch := decide) only [readPair, flag, rdOf, rnOf, pairDisp, bits_put_apart,
      bits_put_field, put_nil, bits_or_of_free, Reg.ofNum_num, bmod_toNat_mod, Int16.toInt_toInt32]
    rfl

lemma DReg.ofNum_mod (d : DReg) : DReg.ofNum (d.id.toNat % 2 ^ 5) = ⟨d.id &&& 0x1F⟩ := by
  have mask : (d.id &&& 0x1F).toUInt32.toNat = d.id.toNat % 2 ^ 5 := toNat_and_mask8 d.id 5 rfl
  rw [DReg.ofNum, ← mask, UInt8.toNat_toUInt32, UInt8.ofNat_toNat]

lemma decode_pairD (load : Bool) (rt1 rt2 : DReg) (rn : Reg) (offset : Int16) :
    decode (pairFields (if load then 0x6D400000 else 0x6D000000) rt1.num rt2.num rn.num offset) =
      some (.pairD load ⟨rt1.id &&& 0x1F⟩ ⟨rt2.id &&& 0x1F⟩ rn
        (8 * (offset / 8).toInt.bmod (2 ^ 7))) := by
  show decode (put _ [.masked8 0 5 rt1.id 0x1F rfl, .reg 5 rn, .masked8 10 5 rt2.id 0x1F rfl,
    .masked 15 7 (offset / 8).toInt32.toUInt32 0x7F rfl]) = _
  cases load
  all_goals
    simp (disch := decide) only [decode, bits_put_apart, put_nil]
    show readPairD _ = _
    simp (disch := decide) only [readPairD, flag, rnOf, pairDisp, bits_put_apart, bits_put_field,
      put_nil, bits_or_of_free, Reg.ofNum_num, DReg.ofNum_mod, bmod_toNat_mod, Int16.toInt_toInt32]
    rfl

lemma decode_b (offset : Int32) : decode (Instr.b offset).encode = (Instr.b offset).form? := by
  let count := (offset / 4).toUInt32
  let word := put 0x14000000 [.masked 0 26 count 0x03FFFFFF rfl]
  have displacement : SiteKind.imm26.displacement word = 4 * (bits word.toNat 0 26 : Int).bmod
    (2 ^ 26) := by
    rw [bits, Nat.pow_zero, Nat.div_one]
    rfl
  -- The two high bits of the displacement are among those of the group.
  obtain ⟨high, small, group⟩ : ∃ high < 4, bits word.toNat 24 8 = 0x14 ||| high := by
    refine ⟨bits (count.toNat % 2 ^ 26) 24 8, by unfold bits; omega, ?_⟩
    show bits (0x14000000 ||| Field.placed _).toNat 24 8 = _
    rw [UInt32.toNat_or, bits_or, Field.toNat_placed _ (by decide : 0 < 32)
      (by decide : 0 + 26 ≤ 32)]
    rfl
  have read : decode word = some (.branch (SiteKind.imm26.displacement word)) := by
    rw [decode, group]
    obtain rfl | rfl | rfl | rfl : high = 0 ∨ high = 1 ∨ high = 2 ∨ high = 3 := by omega
    all_goals rfl
  refine read.trans ?_
  simp (disch := decide) only [displacement, word, bits_put_field, put_nil, bits_or_of_free, count,
    bmod_toNat_mod]
  rfl

/-- The displacement of a branch on a condition or on a register. -/
lemma displacement_imm19 (word : UInt32) :
    SiteKind.imm19.displacement word = 4 * (bits word.toNat 5 19 : Int).bmod (2 ^ 19) := rfl

lemma decode_branchCond (cond : Cond) (offset : Int32) :
    decode (Instr.bCond cond offset).encode = (Instr.bCond cond offset).form? := by
  show decode (put 0x54000000 [.cond 0 cond, .masked 5 19 (offset / 4).toUInt32 0x7FFFF rfl]) = _
  simp (disch := decide) only [decode, bits_put_apart, put_nil]
  show (if flag _ 4 then none else _) = _
  simp (disch := decide) only [flag, displacement_imm19, bits_put_apart, bits_put_field, put_nil,
    bits_or_of_free, Cond.ofCode_code, bmod_toNat_mod]
  rfl

lemma decode_branchZero (nonzero : Bool) (rn : Reg) (offset : Int32) :
    decode ((if nonzero then 0xB5000000 else 0xB4000000) ||| branchField offset ||| rn.num) =
      some (.branchZero nonzero rn (4 * (offset / 4).toInt.bmod (2 ^ 19))) := by
  show decode (put _ [.reg 0 rn, .masked 5 19 (offset / 4).toUInt32 0x7FFFF rfl]) = _
  cases nonzero
  all_goals
    simp (disch := decide) only [decode, bits_put_apart, put_nil]
    show some (Form.branchZero _ (rdOf _) (SiteKind.imm19.displacement _)) = _
    simp (disch := decide) only [rdOf, displacement_imm19, bits_put_apart, bits_put_field, put_nil,
      bits_or_of_free, Reg.ofNum_num, bmod_toNat_mod]

/-- **The word of an instruction is read back** as what the instruction stands for. -/
theorem decode_encode {i : Instr} {form : Form} (stands : i.form? = some form) :
    decode i.encode = some form := by
  rw [← stands]
  cases i with
  | reg op rd rn rm => exact decode_reg op rd rn rm
  | addShifted rd rn rm shift => exact decode_addShifted rd rn rm shift
  | addImm rd rn imm => exact decode_addSubImm false false rd rn imm
  | subImm rd rn imm => exact decode_addSubImm true false rd rn imm
  | cmpImm rn imm => exact decode_addSubImm true true Reg.zr rn imm
  | cmnImm rn imm => exact decode_addSubImm false true Reg.zr rn imm
  | msub rd rn rm ra => exact decode_msub rd rn rm ra
  | mvn rd rm =>
    show decode (put 0xAA200000 [.reg 0 rd, .reg 5 Reg.zr, .reg 16 rm]) = _
    simp (disch := decide) only [decode, bits_put_apart, put_nil]
    show readLogical _ _ = _
    simp (disch := decide) only [readLogical, flag, rdOf, rnOf, rmOf, bits_put_apart,
      bits_put_field, put_nil, bits_or_of_free, Reg.ofNum_num]
    rfl
  | lslImm rd rn shift => exact (decode_shiftImm rd rn shift).1
  | asrImm rd rn shift => exact (decode_shiftImm rd rn shift).2
  | movz rd imm half => exact decode_moveWide .zeros rd imm half
  | movk rd imm half => exact decode_moveWide .keep rd imm half
  | movn rd imm half => exact decode_moveWide .ones rd imm half
  | cmp rn rm =>
    show decode (put 0xEB000000 [.reg 0 Reg.zr, .reg 5 rn, .reg 16 rm]) = _
    simp (disch := decide) only [decode, bits_put_apart, put_nil]
    show readAddSubReg _ = _
    simp (disch := decide) only [readAddSubReg, flag, rdOf, rnOf, rmOf, bits_put_apart,
      bits_put_field, put_nil, bits_or_of_free, Reg.ofNum_num]
    rfl
  | cset rd cond => exact decode_cset rd cond
  | csel rd rn rm cond => exact decode_csel rd rn rm cond
  | ldr rt rn offset => exact decode_access true rt rn offset
  | str rt rn offset => exact decode_access false rt rn offset
  | stp rt1 rt2 rn offset => exact decode_pair false .offset rt1 rt2 rn offset
  | ldp rt1 rt2 rn offset => exact decode_pair true .offset rt1 rt2 rn offset
  | stpPre rt1 rt2 offset => exact decode_pair false .before rt1 rt2 .sp offset
  | ldpPost rt1 rt2 offset => exact decode_pair true .after rt1 rt2 .sp offset
  | stpD rt1 rt2 rn offset => exact decode_pairD false rt1 rt2 rn offset
  | ldpD rt1 rt2 rn offset => exact decode_pairD true rt1 rt2 rn offset
  | b offset => exact decode_b offset
  | bCond cond offset => exact decode_branchCond cond offset
  | cbz rn offset => exact decode_branchZero false rn offset
  | cbnz rn offset => exact decode_branchZero true rn offset
  | blr rn => cases rn <;> rfl
  | ret => rfl
  | _ => cases stands

/-! ### Patched branches -/

/-- A form with another displacement, if it is a branch. -/
def Form.withDisp (disp : Int) : Form → Form
  | .branchCond cond _ => .branchCond cond disp
  | .branchZero nonzero rt _ => .branchZero nonzero rt disp
  | form => form

/-- Fields apart from the displacement stay when it is patched. -/
lemma bits_placeField (inst : UInt32) {field : UInt32} (small : field.toNat < 2 ^ 19)
    (low width : Nat) (inWord : low + width ≤ 32) (apart : low + width ≤ 5 ∨ 24 ≤ low) :
    bits (BranchSite.placeField .imm19 inst field).toNat low width = bits inst.toNat low width := by
  refine Nat.eq_of_testBit_eq fun i => ?_
  simp only [bits, Nat.testBit_mod_two_pow, Nat.testBit_div_two_pow]
  by_cases inside : i < width
  · have same : (BranchSite.placeField .imm19 inst field).toNat.testBit (i + low) =
      inst.toNat.testBit (i + low) :=
      BranchSite.testBit_placeField (by decide) inst small (by omega)
        (by simp only [SiteKind.firstBit, SiteKind.width]; omega)
    rw [same]
  · simp [inside]

/-- A conditional branch that has been patched. -/
lemma decode_placeField {inst : UInt32} (group : bits inst.toNat 24 8 ∈ [0x54, 0xB4, 0xB5])
    {words : Int} (inField : BranchSite.InField .imm19 words) :
    decode (BranchSite.placeField .imm19 inst (UInt32.ofInt (words % 2 ^ 19))) =
      (decode inst).map (Form.withDisp (4 * words)) := by
  have small := (BranchSite.bmod_toNat_ofInt 18 (by decide) inField).1
  have counted : SiteKind.imm19 ≠ .rel32 := by decide
  have disp := BranchSite.displacement_placeField counted inst inField
  have last := bits_placeField inst small 0 5 (by decide) (by decide)
  have cond := bits_placeField inst small 0 4 (by decide) (by decide)
  have plain := bits_placeField inst small 4 1 (by decide) (by decide)
  have same := bits_placeField inst small 24 8 (by decide) (by decide)
  simp only [List.mem_cons, List.not_mem_nil, or_false] at group
  rw [decode, decode, same]
  rcases group with group | group | group
  · rw [group]
    show (if flag _ 4 then none else _) = Option.map _ (if flag _ 4 then none else _)
    rw [flag, plain, cond, ← flag]
    split
    · rfl
    · exact congrArg (fun d => some (Form.branchCond _ d)) disp
  · rw [group]
    exact congrArg some (congrArg₂ (Form.branchZero false) (congrArg Reg.ofNum last) disp)
  · rw [group]
    exact congrArg some (congrArg₂ (Form.branchZero true) (congrArg Reg.ofNum last) disp)

end StackMachine.A64
