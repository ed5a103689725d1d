import StackMachine.Word
import StackMachine.Code.Buffer

/-!
# AArch64 instructions

The instructions the code generator uses.  Every instruction is one 32-bit word.
-/

namespace StackMachine.A64

/-- General-purpose registers.  Number 31 is the stack pointer as a base and zero elsewhere. -/
inductive Reg where
  | x0 | x1 | x2 | x3 | x4 | x5 | x6 | x7 | x8 | x9 | x10 | x11 | x12 | x13 | x14 | x15
  | x16 | x17 | x18 | x19 | x20 | x21 | x22 | x23 | x24 | x25 | x26 | x27 | x28
  | fp | lr | sp
  deriving DecidableEq, Repr

namespace Reg

/-- Every register, by number. -/
def all : List Reg :=
  [.x0, .x1, .x2, .x3, .x4, .x5, .x6, .x7, .x8, .x9, .x10, .x11, .x12, .x13, .x14, .x15,
    .x16, .x17, .x18, .x19, .x20, .x21, .x22, .x23, .x24, .x25, .x26, .x27, .x28, .fp, .lr, .sp]

/-- The zero register. -/
def zr : Reg := .sp

def num (r : Reg) : UInt32 := UInt32.ofNat r.ctorIdx

def name (r : Reg) : String :=
  match r with
  | .fp => "fp"
  | .lr => "lr"
  | .sp => "sp"
  | _ => "x" ++ String.ofList (Nat.toDigits 10 r.ctorIdx)

end Reg

/-- A double-precision register by number. -/
structure DReg where
  id : UInt8
  deriving DecidableEq, Repr

/-- The five-bit number of a double-precision register. -/
def DReg.num (d : DReg) : UInt32 := (d.id &&& 0x1F).toUInt32

/-- Condition codes. -/
inductive Cond where
  | eq | ne | cs | cc | mi | pl | vs | vc | hi | ls | ge | lt | gt | le | al
  deriving DecidableEq, Repr

namespace Cond

/-- Every condition, by code. -/
def all : List Cond :=
  [.eq, .ne, .cs, .cc, .mi, .pl, .vs, .vc, .hi, .ls, .ge, .lt, .gt, .le, .al]

/-- The four-bit code of a condition. -/
def code (c : Cond) : UInt32 := UInt32.ofNat c.ctorIdx

/-- The opposite condition; the one that always holds has none. -/
def invert : Cond → Cond
  | .eq => .ne
  | .ne => .eq
  | .cs => .cc
  | .cc => .cs
  | .mi => .pl
  | .pl => .mi
  | .vs => .vc
  | .vc => .vs
  | .hi => .ls
  | .ls => .hi
  | .ge => .lt
  | .lt => .ge
  | .gt => .le
  | .le => .gt
  | .al => .al

@[simp]
theorem invert_invert (c : Cond) : c.invert.invert = c := by cases c <;> rfl

end Cond

/-- Operations on two registers. -/
inductive RegOp where
  | add | sub | mul | sdiv | and | orr | eor | lslv | asrv
  deriving DecidableEq, Repr

/-- The word of an operation on registers of number zero. -/
def RegOp.base : RegOp → UInt32
  | .add => 0x8B000000
  | .sub => 0xCB000000
  | .mul => 0x9B007C00
  | .sdiv => 0x9AC00C00
  | .and => 0x8A000000
  | .orr => 0xAA000000
  | .eor => 0xCA000000
  | .lslv => 0x9AC02000
  | .asrv => 0x9AC02800

/-- Operations on two doubles. -/
inductive FloatRegOp where
  | add | sub | mul | div
  deriving DecidableEq, Repr

/-- The word of an operation on doubles in registers of number zero. -/
def FloatRegOp.base : FloatRegOp → UInt32
  | .add => 0x1E602800
  | .sub => 0x1E603800
  | .mul => 0x1E600800
  | .div => 0x1E601800

/-- Instructions, destination first; offsets in bytes. -/
inductive Instr where
  | reg (op : RegOp) (rd rn rm : Reg)
  /-- Adds a shifted register. -/
  | addShifted (rd rn rm : Reg) (shift : UInt8)
  | addImm (rd rn : Reg) (imm : UInt16)
  | subImm (rd rn : Reg) (imm : UInt16)
  /-- Subtracts a product from `ra`. -/
  | msub (rd rn rm ra : Reg)
  | mvn (rd rm : Reg)
  | lslImm (rd rn : Reg) (shift : UInt8)
  | asrImm (rd rn : Reg) (shift : UInt8)
  | movz (rd : Reg) (imm : UInt16) (half : UInt8)
  | movk (rd : Reg) (imm : UInt16) (half : UInt8)
  | movn (rd : Reg) (imm : UInt16) (half : UInt8)
  | cmp (rn rm : Reg)
  | cmpImm (rn : Reg) (imm : UInt16)
  | cmnImm (rn : Reg) (imm : UInt16)
  | cset (rd : Reg) (cond : Cond)
  | csel (rd rn rm : Reg) (cond : Cond)
  | ldr (rt rn : Reg) (offset : UInt32)
  | str (rt rn : Reg) (offset : UInt32)
  | ldrByte (rt rn : Reg) (offset : UInt32)
  | strByte (rt rn : Reg) (offset : UInt32)
  | ldrHalf (rt rn : Reg) (offset : UInt32)
  | strHalf (rt rn : Reg) (offset : UInt32)
  | ldur (rt rn : Reg) (offset : Int16)
  | stur (rt rn : Reg) (offset : Int16)
  | ldrIndexed (rt rn rm : Reg)
  | strIndexed (rt rn rm : Reg)
  | ldrD (rt : DReg) (rn : Reg) (offset : UInt32)
  | strD (rt : DReg) (rn : Reg) (offset : UInt32)
  | ldrDIndexed (rt : DReg) (rn rm : Reg)
  | strDIndexed (rt : DReg) (rn rm : Reg)
  | stp (rt1 rt2 rn : Reg) (offset : Int16)
  | ldp (rt1 rt2 rn : Reg) (offset : Int16)
  | stpD (rt1 rt2 : DReg) (rn : Reg) (offset : Int16)
  | ldpD (rt1 rt2 : DReg) (rn : Reg) (offset : Int16)
  /-- Stores a pair below the stack pointer and moves it there. -/
  | stpPre (rt1 rt2 : Reg) (offset : Int16)
  /-- Loads a pair at the stack pointer and moves it past. -/
  | ldpPost (rt1 rt2 : Reg) (offset : Int16)
  | float (op : FloatRegOp) (rd rn rm : DReg)
  | fcmp (rn rm : DReg)
  | fcmpZero (rn : DReg)
  | fmov (rd rn : DReg)
  | fmovFromGpr (rd : DReg) (rn : Reg)
  | fmovToGpr (rd : Reg) (rn : DReg)
  | scvtf (rd : DReg) (rn : Reg)
  | fcvtzs (rd : Reg) (rn : DReg)
  | b (offset : Int32)
  | bCond (cond : Cond) (offset : Int32)
  | cbz (rn : Reg) (offset : Int32)
  | cbnz (rn : Reg) (offset : Int32)
  | blr (rn : Reg)
  | ret
  | nop
  | raw (word : UInt32)
  deriving DecidableEq, Repr

/-! ### Words -/

/-- Three register fields. -/
def fields (base rd rn rm : UInt32) : UInt32 := base ||| (rm <<< 16) ||| (rn <<< 5) ||| rd

/-- A 12-bit immediate and two register fields. -/
def immFields (base imm rn rd : UInt32) : UInt32 :=
  base ||| ((imm &&& 0xFFF) <<< 10) ||| (rn <<< 5) ||| rd

/-- A 16-bit immediate placed at one of the four halves. -/
def halfFields (base : UInt32) (imm : UInt16) (half : UInt8) (rd : UInt32) : UInt32 :=
  base ||| ((half &&& 3).toUInt32 <<< 21) ||| (imm.toUInt32 <<< 5) ||| rd

/-- A pair of registers at a scaled 7-bit offset. -/
def pairFields (base rt1 rt2 rn : UInt32) (offset : Int16) : UInt32 :=
  let scaled := ((offset / 8).toInt32.toUInt32) &&& 0x7F
  base ||| (scaled <<< 15) ||| (rt2 <<< 10) ||| (rn <<< 5) ||| rt1

/-- An unscaled 9-bit offset and two register fields. -/
def unscaledFields (base : UInt32) (offset : Int16) (rn rt : UInt32) : UInt32 :=
  base ||| ((offset.toInt32.toUInt32 &&& 0x1FF) <<< 12) ||| (rn <<< 5) ||| rt

def branchField (offset : Int32) : UInt32 := ((offset / 4).toUInt32 &&& 0x7FFFF) <<< 5

/-- The word of an instruction. -/
def Instr.encode : Instr → UInt32
  | .reg op rd rn rm => fields op.base rd.num rn.num rm.num
  | .addShifted rd rn rm shift =>
    fields ((0x8B000000 : UInt32) ||| ((shift &&& 0x3F).toUInt32 <<< 10)) rd.num rn.num rm.num
  | .addImm rd rn imm => immFields 0x91000000 imm.toUInt32 rn.num rd.num
  | .subImm rd rn imm => immFields 0xD1000000 imm.toUInt32 rn.num rd.num
  | .msub rd rn rm ra => fields ((0x9B008000 : UInt32) ||| (ra.num <<< 10)) rd.num rn.num rm.num
  | .mvn rd rm => fields 0xAA200000 rd.num Reg.zr.num rm.num
  | .lslImm rd rn shift =>
    let count := (shift &&& 0x3F).toUInt32
    (0xD3400000 : UInt32) ||| (((64 - count) &&& 0x3F) <<< 16) ||| ((63 - count) <<< 10) |||
      (rn.num <<< 5) ||| rd.num
  | .asrImm rd rn shift =>
    (0x9340FC00 : UInt32) ||| ((shift &&& 0x3F).toUInt32 <<< 16) ||| (rn.num <<< 5) ||| rd.num
  | .movz rd imm half => halfFields 0xD2800000 imm half rd.num
  | .movk rd imm half => halfFields 0xF2800000 imm half rd.num
  | .movn rd imm half => halfFields 0x92800000 imm half rd.num
  | .cmp rn rm => fields 0xEB000000 Reg.zr.num rn.num rm.num
  | .cmpImm rn imm => immFields 0xF1000000 imm.toUInt32 rn.num Reg.zr.num
  | .cmnImm rn imm => immFields 0xB1000000 imm.toUInt32 rn.num Reg.zr.num
  | .cset rd cond => (0x9A9F07E0 : UInt32) ||| (cond.invert.code <<< 12) ||| rd.num
  | .csel rd rn rm cond =>
    fields ((0x9A800000 : UInt32) ||| (cond.code <<< 12)) rd.num rn.num rm.num
  | .ldr rt rn offset => immFields 0xF9400000 (offset / 8) rn.num rt.num
  | .str rt rn offset => immFields 0xF9000000 (offset / 8) rn.num rt.num
  | .ldrByte rt rn offset => immFields 0x39400000 offset rn.num rt.num
  | .strByte rt rn offset => immFields 0x39000000 offset rn.num rt.num
  | .ldrHalf rt rn offset => immFields 0xB9400000 (offset / 4) rn.num rt.num
  | .strHalf rt rn offset => immFields 0xB9000000 (offset / 4) rn.num rt.num
  | .ldur rt rn offset => unscaledFields 0xF8400000 offset rn.num rt.num
  | .stur rt rn offset => unscaledFields 0xF8000000 offset rn.num rt.num
  | .ldrIndexed rt rn rm => fields 0xF8607800 rt.num rn.num rm.num
  | .strIndexed rt rn rm => fields 0xF8207800 rt.num rn.num rm.num
  | .ldrD rt rn offset => immFields 0xFD400000 (offset / 8) rn.num rt.num
  | .strD rt rn offset => immFields 0xFD000000 (offset / 8) rn.num rt.num
  | .ldrDIndexed rt rn rm => fields 0xFC607800 rt.num rn.num rm.num
  | .strDIndexed rt rn rm => fields 0xFC207800 rt.num rn.num rm.num
  | .stp rt1 rt2 rn offset => pairFields 0xA9000000 rt1.num rt2.num rn.num offset
  | .ldp rt1 rt2 rn offset => pairFields 0xA9400000 rt1.num rt2.num rn.num offset
  | .stpD rt1 rt2 rn offset => pairFields 0x6D000000 rt1.num rt2.num rn.num offset
  | .ldpD rt1 rt2 rn offset => pairFields 0x6D400000 rt1.num rt2.num rn.num offset
  | .stpPre rt1 rt2 offset => pairFields 0xA9800000 rt1.num rt2.num Reg.sp.num offset
  | .ldpPost rt1 rt2 offset => pairFields 0xA8C00000 rt1.num rt2.num Reg.sp.num offset
  | .float op rd rn rm => fields op.base rd.num rn.num rm.num
  | .fcmp rn rm => fields 0x1E602000 0 rn.num rm.num
  | .fcmpZero rn => (0x1E602008 : UInt32) ||| (rn.num <<< 5)
  | .fmov rd rn => (0x1E604000 : UInt32) ||| (rn.num <<< 5) ||| rd.num
  | .fmovFromGpr rd rn => (0x9E670000 : UInt32) ||| (rn.num <<< 5) ||| rd.num
  | .fmovToGpr rd rn => (0x9E660000 : UInt32) ||| (rn.num <<< 5) ||| rd.num
  | .scvtf rd rn => (0x9E620000 : UInt32) ||| (rn.num <<< 5) ||| rd.num
  | .fcvtzs rd rn => (0x9E780000 : UInt32) ||| (rn.num <<< 5) ||| rd.num
  | .b offset => (0x14000000 : UInt32) ||| ((offset / 4).toUInt32 &&& 0x03FFFFFF)
  | .bCond cond offset => (0x54000000 : UInt32) ||| branchField offset ||| cond.code
  | .cbz rn offset => (0xB4000000 : UInt32) ||| branchField offset ||| rn.num
  | .cbnz rn offset => (0xB5000000 : UInt32) ||| branchField offset ||| rn.num
  | .blr rn => (0xD63F0000 : UInt32) ||| (rn.num <<< 5)
  | .ret => 0xD65F03C0
  | .nop => 0xD503201F
  | .raw word => word

def Instr.mov (rd rm : Reg) : Instr := .reg .orr rd Reg.zr rm

/-- Moves to or from the stack pointer. -/
def Instr.movSp (rd rn : Reg) : Instr := .addImm rd rn 0

def Instr.bytes (i : Instr) : List UInt8 := bytes32 i.encode

/-! ### Constants -/

/-- The 16-bit half of a word at a place, lowest first. -/
def halfOf (value : Word) (half : Nat) : UInt16 :=
  (value.toUInt64 >>> UInt64.ofNat (16 * half)).toUInt16

/-- The number of halves equal to a value. -/
def countHalves (value : Word) (half : UInt16) : Nat :=
  ((List.range 4).filter fun i => halfOf value i == half).length

/-- A wide move of the first half that differs from `fill`, and a patch for every later one that
does. -/
def synthesise (fill : UInt16) (first : UInt16 → UInt8 → Instr) (rd : Reg) (value : Word) :
    List Instr :=
  let start := ((List.range 4).find? fun i => halfOf value i != fill).getD 0
  let later := (List.range 4).filter fun i => decide (start < i) && halfOf value i != fill
  first (halfOf value start) (UInt8.ofNat start) ::
    later.map fun i => .movk rd (halfOf value i) (UInt8.ofNat i)

/-- Moves a constant, starting from all ones when more halves are all ones than zero. -/
def moveConst (rd : Reg) (value : Word) : List Instr :=
  if countHalves value 0 < countHalves value 0xFFFF then
    synthesise 0xFFFF (fun imm half => .movn rd (~~~imm) half) rd value
  else synthesise 0 (fun imm half => .movz rd imm half) rd value

/-- The number of instructions a constant takes. -/
def moveConstLength (value : Word) : Nat :=
  max (4 - max (countHalves value 0xFFFF) (countHalves value 0)) 1

end StackMachine.A64
