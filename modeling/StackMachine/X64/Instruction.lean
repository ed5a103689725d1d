import StackMachine.Word
import StackMachine.Code.Buffer

/-!
# x86-64 instructions

The instructions the code generator uses, and their bytes.  An instruction is an optional prefix,
a REX byte where one is needed, the opcode, a ModR/M byte with its memory operand, and an immediate.
Where several forms exist the shortest that can hold the operand is used.
-/

namespace StackMachine.X64

/-- General-purpose registers. -/
inductive Reg where
  | rax | rcx | rdx | rbx | rsp | rbp | rsi | rdi
  | r8 | r9 | r10 | r11 | r12 | r13 | r14 | r15
  deriving DecidableEq, Repr

namespace Reg

/-- Every register, by number. -/
def all : List Reg :=
  [.rax, .rcx, .rdx, .rbx, .rsp, .rbp, .rsi, .rdi,
    .r8, .r9, .r10, .r11, .r12, .r13, .r14, .r15]

def num (r : Reg) : UInt8 := UInt8.ofNat r.ctorIdx

/-- The low three bits of the number. -/
def low (r : Reg) : UInt8 := r.num &&& 7

/-- Does the register need an extension bit? -/
def isExtended (r : Reg) : Bool := decide (8 ≤ r.num)

def name : Reg → String
  | .rax => "rax"
  | .rcx => "rcx"
  | .rdx => "rdx"
  | .rbx => "rbx"
  | .rsp => "rsp"
  | .rbp => "rbp"
  | .rsi => "rsi"
  | .rdi => "rdi"
  | .r8 => "r8"
  | .r9 => "r9"
  | .r10 => "r10"
  | .r11 => "r11"
  | .r12 => "r12"
  | .r13 => "r13"
  | .r14 => "r14"
  | .r15 => "r15"

end Reg

/-- An SSE register by number. -/
structure Xmm where
  num : UInt8
  deriving DecidableEq, Repr

/-- Condition codes. -/
inductive Cond where
  | o | no | b | ae | e | ne | be | a | s | ns | p | np | l | ge | le | g
  deriving DecidableEq, Repr

namespace Cond

/-- Every condition, by code. -/
def all : List Cond :=
  [.o, .no, .b, .ae, .e, .ne, .be, .a, .s, .ns, .p, .np, .l, .ge, .le, .g]

/-- The four-bit code of a condition. -/
def code (c : Cond) : UInt8 := UInt8.ofNat c.ctorIdx

/-- The opposite condition. -/
def invert : Cond → Cond
  | .o => .no
  | .no => .o
  | .b => .ae
  | .ae => .b
  | .e => .ne
  | .ne => .e
  | .be => .a
  | .a => .be
  | .s => .ns
  | .ns => .s
  | .p => .np
  | .np => .p
  | .l => .ge
  | .ge => .l
  | .le => .g
  | .g => .le

@[simp]
theorem invert_invert (c : Cond) : c.invert.invert = c := by cases c <;> rfl

end Cond

/-- Two-operand integer operations that share their encodings. -/
inductive Alu where
  | add | or | and | sub | xor | cmp
  deriving DecidableEq, Repr

namespace Alu

/-- Every operation. -/
def all : List Alu := [.add, .or, .and, .sub, .xor, .cmp]

/-- The opcode extension of the immediate forms. -/
def extension : Alu → UInt8
  | .add => 0
  | .or => 1
  | .and => 4
  | .sub => 5
  | .xor => 6
  | .cmp => 7

/-- The opcode with a register source; two more is the form with a memory source. -/
def opcode (op : Alu) : UInt8 := op.extension * 8 + 1

end Alu

/-- A memory operand `[base + index * scale + disp]`. -/
structure Mem where
  base : Reg
  disp : Int32
  index : Option (Reg × UInt8) := none
  deriving DecidableEq, Repr

/-- Two-operand arithmetic on doubles. -/
inductive SseOp where
  | add | mul | sub | div
  deriving DecidableEq, Repr

/-- The last opcode byte of an operation on doubles. -/
def SseOp.opcode : SseOp → UInt8
  | .add => 0x58
  | .mul => 0x59
  | .sub => 0x5C
  | .div => 0x5E

/-- Instructions, destination first. -/
inductive Instr where
  | movRR (dst src : Reg)
  /-- Clears a register. -/
  | clear (dst : Reg)
  /-- Moves a zero-extended immediate. -/
  | movImm32 (dst : Reg) (imm : UInt32)
  /-- Moves a sign-extended immediate. -/
  | movSigned (dst : Reg) (imm : Int32)
  | movImm64 (dst : Reg) (imm : Word)
  | movRM (dst : Reg) (mem : Mem)
  | movMR (mem : Mem) (src : Reg)
  | movMI (mem : Mem) (imm : Int32)
  | movzxByte (dst : Reg) (mem : Mem)
  | movRM32 (dst : Reg) (mem : Mem)
  | movMRByte (mem : Mem) (src : Reg)
  | movMR32 (mem : Mem) (src : Reg)
  | lea (dst : Reg) (mem : Mem)
  | movzxReg (dst src : Reg)
  | aluRR (op : Alu) (dst src : Reg)
  | aluRI (op : Alu) (dst : Reg) (imm : Int32)
  | aluRM (op : Alu) (dst : Reg) (mem : Mem)
  | aluMI (op : Alu) (mem : Mem) (imm : Int32)
  | imulRR (dst src : Reg)
  | imulRM (dst : Reg) (mem : Mem)
  | imulRRI (dst src : Reg) (imm : Int32)
  | idiv (src : Reg)
  | cqo
  | neg (dst : Reg)
  | not (dst : Reg)
  | shlImm (dst : Reg) (count : UInt8)
  | sarImm (dst : Reg) (count : UInt8)
  | shlCl (dst : Reg)
  | sarCl (dst : Reg)
  | test (a b : Reg)
  | setcc (cond : Cond) (dst : Reg)
  | and8 (dst src : Reg)
  | or8 (dst src : Reg)
  | push (reg : Reg)
  | pop (reg : Reg)
  | jmp (disp : Int32)
  | jcc (cond : Cond) (disp : Int32)
  | call (reg : Reg)
  | ret
  | movsdRR (dst src : Xmm)
  | movsdRM (dst : Xmm) (mem : Mem)
  | movsdMR (mem : Mem) (src : Xmm)
  | movqToXmm (dst : Xmm) (src : Reg)
  | movqFromXmm (dst : Reg) (src : Xmm)
  | sse (op : SseOp) (dst src : Xmm)
  | ucomisd (a b : Xmm)
  | xorpd (dst src : Xmm)
  | cvtsi2sd (dst : Xmm) (src : Reg)
  | cvttsd2si (dst : Reg) (src : Xmm)
  deriving DecidableEq, Repr

/-! ### Bytes -/

/-- A ModR/M byte. -/
def modrm (mode reg rm : UInt8) : UInt8 :=
  ((mode &&& 3) <<< 6) ||| ((reg &&& 7) <<< 3) ||| (rm &&& 7)

/-- The REX byte of an instruction; left out when it says nothing, unless it is forced. -/
def rex (wide : Bool) (reg index base : UInt8) (force : Bool := false) : List UInt8 :=
  let mark : UInt8 := if wide then 0x48 else 0x40
  let byte : UInt8 :=
    mark ||| (((reg >>> 3) &&& 1) <<< 2) |||
      (((index >>> 3) &&& 1) <<< 1) ||| ((base >>> 3) &&& 1)
  if byte ≠ 0x40 ∨ force then [byte] else []

/-- The REX byte of an instruction with a memory operand. -/
def rexMem (wide : Bool) (reg : UInt8) (mem : Mem) (force : Bool := false) : List UInt8 :=
  let index := (mem.index.map fun i => i.1.num).getD 0
  rex wide reg index mem.base.num force

/-- Does a value fit a sign-extended byte? -/
def fitsByte (v : Int32) : Bool := decide (-128 ≤ v) && decide (v ≤ 127)

/-- The low byte of a value. -/
def byteOf (v : Int32) : UInt8 := v.toUInt32.toUInt8

/-- The four bytes of a value. -/
def bytesOf (v : Int32) : List UInt8 := bytes32 v.toUInt32

/-- The two-bit code of a scale. -/
def scaleBits (scale : UInt8) : UInt8 :=
  if scale = 1 then 0 else if scale = 2 then 1 else if scale = 4 then 2 else 3

/-- The displacement mode of a memory operand: none, one byte or four.  A base whose low bits are
those of `rbp` always has a displacement. -/
def Mem.mode (mem : Mem) : UInt8 :=
  if mem.disp = 0 ∧ mem.base.low ≠ 5 then 0 else if fitsByte mem.disp then 1 else 2

/-- ModR/M byte, index byte and displacement of a memory operand.  A base whose low bits are those
of `rsp` needs an index byte that names no index. -/
def memOperand (reg : UInt8) (mem : Mem) : List UInt8 :=
  let base := mem.base.low
  let place :=
    match mem.index with
    | some (index, scale) =>
      [modrm mem.mode reg 4, (scaleBits scale <<< 6) ||| (index.low <<< 3) ||| base]
    | none =>
      if base = 4 then [modrm mem.mode reg 4, ((4 : UInt8) <<< 3) ||| base]
        else [modrm mem.mode reg base]
  let disp :=
    if mem.mode = 1 then [byteOf mem.disp] else if mem.mode = 2 then bytesOf mem.disp else []
  place ++ disp

/-- An instruction with two register operands. -/
def regForm (wide : Bool) (opcode : List UInt8) (reg rm : UInt8) : List UInt8 :=
  rex wide reg 0 rm ++ opcode ++ [modrm 3 reg rm]

/-- An instruction with a memory operand. -/
def memForm (wide : Bool) (opcode : List UInt8) (reg : UInt8) (mem : Mem) : List UInt8 :=
  rexMem wide reg mem ++ opcode ++ memOperand reg mem

/-- An SSE instruction with two register operands. -/
def sseForm (lead opcode : UInt8) (wide : Bool) (reg rm : UInt8) : List UInt8 :=
  lead :: (rex wide reg 0 rm ++ [0x0F, opcode, modrm 3 reg rm])

/-- An SSE instruction with a memory operand. -/
def sseMemForm (lead opcode : UInt8) (reg : UInt8) (mem : Mem) : List UInt8 :=
  lead :: (rexMem false reg mem ++ [0x0F, opcode] ++ memOperand reg mem)

/-- Registers whose low byte can only be named with a REX byte. -/
def needsByteRex (r : Reg) : Bool := decide (4 ≤ r.num) && decide (r.num < 8)

/-- The bytes of an instruction. -/
def Instr.encode : Instr → List UInt8
  | .movRR dst src => regForm true [0x89] src.num dst.num
  | .clear dst => regForm false [0x31] dst.num dst.num
  | .movImm32 dst imm => rex false 0 0 dst.num ++ [0xB8 + dst.low] ++ bytes32 imm
  | .movSigned dst imm => rex true 0 0 dst.num ++ [0xC7, modrm 3 0 dst.low] ++ bytesOf imm
  | .movImm64 dst imm => rex true 0 0 dst.num ++ [0xB8 + dst.low] ++ bytes64 imm.toUInt64
  | .movRM dst mem => memForm true [0x8B] dst.num mem
  | .movMR mem src => memForm true [0x89] src.num mem
  | .movMI mem imm => memForm true [0xC7] 0 mem ++ bytesOf imm
  | .movzxByte dst mem => memForm true [0x0F, 0xB6] dst.num mem
  | .movRM32 dst mem => memForm false [0x8B] dst.num mem
  | .movMRByte mem src =>
    rexMem false src.num mem (needsByteRex src) ++ [0x88] ++ memOperand src.num mem
  | .movMR32 mem src => memForm false [0x89] src.num mem
  | .lea dst mem => memForm true [0x8D] dst.num mem
  | .movzxReg dst src => rex true dst.num 0 src.num ++ [0x0F, 0xB6, modrm 3 dst.low src.low]
  | .aluRR op dst src => regForm true [op.opcode] src.num dst.num
  | .aluRI op dst imm =>
    rex true 0 0 dst.num ++
      if fitsByte imm then [0x83, modrm 3 op.extension dst.low, byteOf imm]
      else [0x81, modrm 3 op.extension dst.low] ++ bytesOf imm
  | .aluRM op dst mem => memForm true [op.opcode + 2] dst.num mem
  | .aluMI op mem imm =>
    if fitsByte imm then memForm true [0x83] op.extension mem ++ [byteOf imm]
    else memForm true [0x81] op.extension mem ++ bytesOf imm
  | .imulRR dst src => regForm true [0x0F, 0xAF] dst.num src.num
  | .imulRM dst mem => memForm true [0x0F, 0xAF] dst.num mem
  | .imulRRI dst src imm =>
    rex true dst.num 0 src.num ++
      if fitsByte imm then [0x6B, modrm 3 dst.low src.low, byteOf imm]
      else [0x69, modrm 3 dst.low src.low] ++ bytesOf imm
  | .idiv src => regForm true [0xF7] 7 src.num
  | .cqo => [0x48, 0x99]
  | .neg dst => regForm true [0xF7] 3 dst.num
  | .not dst => regForm true [0xF7] 2 dst.num
  | .shlImm dst count => regForm true [0xC1] 4 dst.num ++ [count]
  | .sarImm dst count => regForm true [0xC1] 7 dst.num ++ [count]
  | .shlCl dst => regForm true [0xD3] 4 dst.num
  | .sarCl dst => regForm true [0xD3] 7 dst.num
  | .test a b => regForm true [0x85] b.num a.num
  | .setcc cond dst =>
    rex false 0 0 dst.num (needsByteRex dst) ++ [0x0F, 0x90 + cond.code, modrm 3 0 dst.low]
  | .and8 dst src => regForm false [0x20] src.num dst.num
  | .or8 dst src => regForm false [0x08] src.num dst.num
  | .push reg => rex false 0 0 reg.num ++ [0x50 + reg.low]
  | .pop reg => rex false 0 0 reg.num ++ [0x58 + reg.low]
  | .jmp disp => 0xE9 :: bytesOf disp
  | .jcc cond disp => 0x0F :: (0x80 + cond.code) :: bytesOf disp
  | .call reg => regForm false [0xFF] 2 reg.num
  | .ret => [0xC3]
  | .movsdRR dst src => sseForm 0xF2 0x10 false dst.num src.num
  | .movsdRM dst mem => sseMemForm 0xF2 0x10 dst.num mem
  | .movsdMR mem src => sseMemForm 0xF2 0x11 src.num mem
  | .movqToXmm dst src => sseForm 0x66 0x6E true dst.num src.num
  | .movqFromXmm dst src => sseForm 0x66 0x7E true src.num dst.num
  | .sse op dst src => sseForm 0xF2 op.opcode false dst.num src.num
  | .ucomisd a b => sseForm 0x66 0x2E false a.num b.num
  | .xorpd dst src => sseForm 0x66 0x57 false dst.num src.num
  | .cvtsi2sd dst src => sseForm 0xF2 0x2A true dst.num src.num
  | .cvttsd2si dst src => sseForm 0xF2 0x2C true dst.num src.num

def Instr.moveConst (dst : Reg) (value : Word) : Instr :=
  if value = 0 then .clear dst
  else if 0 ≤ value ∧ value ≤ 0xFFFFFFFF then .movImm32 dst (Word.lowHalf value)
  else if Word.fitsInt32 value then .movSigned dst value.toInt32
  else .movImm64 dst value

/-- The bytes of instructions in a row. -/
def encodeAll (code : List Instr) : List UInt8 := code.flatMap Instr.encode

/-- The number of bytes of instructions in a row. -/
def codeLength (code : List Instr) : Nat := (encodeAll code).length

/-- The offset of the displacement field of a branch, and of the immediate of a 32-bit move: it is
the last four bytes. -/
def Instr.fieldOffset (i : Instr) : Nat := i.encode.length - 4

end StackMachine.X64
