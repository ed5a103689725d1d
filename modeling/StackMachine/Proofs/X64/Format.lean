import Mathlib.Tactic.Common
import StackMachine.X64.Instruction

/-!
# The format of x86-64 instructions

Reads instructions from bytes, as far as the code generator uses them.  An instruction starts with
an optional prefix and an optional REX byte, which has the high bits of the register numbers.  The
opcode says what follows: a ModR/M byte with its operand (`takeOperand`), and an immediate (`Tail`).
Bytes that are another instruction, or none, are not read.
-/

namespace StackMachine.X64

/-! ### Registers and conditions by number -/

/-- The register with a number below 16. -/
def Reg.ofNum (n : UInt8) : Reg := Reg.all.getD n.toNat .rax

@[simp]
lemma Reg.ofNum_num (r : Reg) : Reg.ofNum r.num = r := by cases r <;> rfl

lemma Reg.num_lt (r : Reg) : r.num < 16 := by cases r <;> decide

/-- The condition with a code below 16. -/
def Cond.ofCode (n : UInt8) : Cond := Cond.all.getD n.toNat .o

/-- The operation with an opcode extension. -/
def Alu.ofExtension? : UInt8 → Option Alu
  | 0 => some .add
  | 1 => some .or
  | 4 => some .and
  | 5 => some .sub
  | 6 => some .xor
  | 7 => some .cmp
  | _ => none

/-- The operation on doubles with a last opcode byte. -/
def SseOp.ofOpcode? : UInt8 → Option SseOp
  | 0x58 => some .add
  | 0x59 => some .mul
  | 0x5C => some .sub
  | 0x5E => some .div
  | _ => none

/-! ### Prefixes -/

/-- What the REX byte says: that there is one, that the operands are wide, and the high bits of
three register numbers. -/
structure Rex where
  present : Bool := false
  wide : Bool := false
  reg : Bool := false
  index : Bool := false
  base : Bool := false
  deriving DecidableEq, Repr

/-- The bits of a REX byte. -/
def Rex.ofByte (b : UInt8) : Rex where
  present := true
  wide := b &&& 8 ≠ 0
  reg := b &&& 4 ≠ 0
  index := b &&& 2 ≠ 0
  base := b &&& 1 ≠ 0

/-- Reads the REX byte if there is one. -/
def takeRex : List UInt8 → Rex × List UInt8
  | [] => ({}, [])
  | b :: rest => if b &&& 0xF0 = 0x40 then (.ofByte b, rest) else ({}, b :: rest)

/-- A register number of three bits and a high bit. -/
def extend (high : Bool) (low : UInt8) : UInt8 := if high then low ||| 8 else low

/-! ### Immediates and operands -/

/-- Reads a sign-extended byte. -/
def takeInt8 : List UInt8 → Option (Int32 × List UInt8)
  | [] => none
  | b :: rest => some (b.toInt8.toInt32, rest)

/-- Reads four bytes. -/
def take32 : List UInt8 → Option (UInt32 × List UInt8)
  | a :: b :: c :: d :: rest => some (word32 a b c d, rest)
  | _ => none

/-- Reads eight bytes. -/
def take64 (bytes : List UInt8) : Option (UInt64 × List UInt8) := do
  let (low, rest) ← take32 bytes
  let (high, rest) ← take32 rest
  return (low.toUInt64 ||| (high.toUInt64 <<< 32), rest)

/-- Reads the displacement that a mode asks for. -/
def takeDisp (mode : UInt8) (bytes : List UInt8) : Option (Int32 × List UInt8) :=
  if mode = 0 then some (0, bytes)
  else if mode = 1 then takeInt8 bytes
  else (take32 bytes).map fun (disp, rest) => (disp.toInt32, rest)

/-- Reads what follows the ModR/M byte of a memory operand: an index byte, if the register field
says so, and a displacement.  Operands without a base, and those relative to the next instruction,
are not read. -/
def takeMem (rex : Rex) (mode rm : UInt8) (bytes : List UInt8) : Option (Mem × List UInt8) :=
  if rm = 4 then
    match bytes with
    | [] => none
    | sib :: rest =>
      if sib &&& 7 = 5 ∧ mode = 0 then none
      else
        (takeDisp mode rest).map fun (disp, rest) =>
          let index := extend rex.index ((sib >>> 3) &&& 7)
          ({ base := .ofNum (extend rex.base (sib &&& 7)), disp
             index := if index = 4 then none
               else some (.ofNum index, (1 : UInt8) <<< (sib >>> 6)) }, rest)
  else if rm = 5 ∧ mode = 0 then none
  else (takeDisp mode bytes).map fun (disp, rest) =>
    ({ base := .ofNum (extend rex.base rm), disp }, rest)

/-- The operand that a ModR/M byte names. -/
inductive Operand where
  | reg (num : UInt8)
  | mem (mem : Mem)
  deriving DecidableEq, Repr

/-- Reads a ModR/M byte and its operand: the register field and the operand. -/
def takeOperand (rex : Rex) : List UInt8 → Option (UInt8 × Operand × List UInt8)
  | [] => none
  | b :: rest =>
    let reg := extend rex.reg ((b >>> 3) &&& 7)
    if b >>> 6 = 3 then some (reg, .reg (extend rex.base (b &&& 7)), rest)
    else (takeMem rex (b >>> 6) (b &&& 7) rest).map fun (mem, rest) => (reg, .mem mem, rest)

/-- What follows the operands of an instruction. -/
inductive Tail where
  | none (instr : Option Instr)
  | byte (f : UInt8 → Option Instr)
  /-- A sign-extended byte. -/
  | int8 (f : Int32 → Option Instr)
  | word32 (f : UInt32 → Option Instr)
  | word64 (f : Word → Option Instr)

/-- Reads the immediate, and with it the instruction. -/
def Tail.read : Tail → List UInt8 → Option (Instr × List UInt8)
  | .none instr, bytes => instr.map (·, bytes)
  | .byte f, b :: rest => (f b).map (·, rest)
  | .byte _, [] => .none
  | .int8 f, bytes => (takeInt8 bytes).bind fun (imm, rest) => (f imm).map (·, rest)
  | .word32 f, bytes => (take32 bytes).bind fun (imm, rest) => (f imm).map (·, rest)
  | .word64 f, bytes => (take64 bytes).bind fun (imm, rest) => (f imm.toInt64).map (·, rest)

/-- What follows an opcode. -/
inductive Form where
  | bare (tail : Tail)
  /-- A ModR/M byte, whose register field and operand say what the instruction is. -/
  | modrm (f : UInt8 → Operand → Tail)

/-- Reads what follows an opcode. -/
def Form.read (rex : Rex) : Form → List UInt8 → Option (Instr × List UInt8)
  | .bare tail, bytes => tail.read bytes
  | .modrm f, bytes =>
    (takeOperand rex bytes).bind fun (reg, operand, rest) => (f reg operand).read rest

/-! ### Opcodes -/

/-- The register of a byte operand.  Without a REX byte the numbers from 4 to 7 name the second
bytes of the first four registers. -/
def byteReg? (rex : Rex) (n : UInt8) : Option Reg :=
  if rex.present = false ∧ 4 ≤ n ∧ n < 8 then none else some (.ofNum n)

def onReg (f : Reg → Option Instr) : Operand → Tail
  | .reg num => .none (f (.ofNum num))
  | .mem _ => .none none

def onMem (f : Mem → Option Instr) : Operand → Tail
  | .reg _ => .none none
  | .mem mem => .none (f mem)

/-- An instruction that there is only with wide operands. -/
def wideOnly (rex : Rex) (f : UInt8 → Operand → Tail) : Form :=
  .modrm fun reg operand => if rex.wide then f reg operand else .none none

/-- An arithmetic instruction with an immediate. -/
def aluImm (op : Alu) : Operand → Int32 → Option Instr
  | .reg num, imm => some (.aluRI op (.ofNum num) imm)
  | .mem mem, imm => some (.aluMI op mem imm)

/-- The instructions whose opcode extension is in the register field. -/
def group (table : UInt8 → Option (Reg → Instr)) (reg : UInt8) : Operand → Tail :=
  onReg fun rm => (table (reg &&& 7)).map (· rm)

/-- Opcodes of one byte. -/
def oneByte? (rex : Rex) (op : UInt8) : Option Form :=
  match op with
  | 0x08 =>
    some (.modrm fun reg => onReg fun rm => do
      return .or8 (← byteReg? rex rm.num) (← byteReg? rex reg))
  | 0x20 =>
    some (.modrm fun reg => onReg fun rm => do
      return .and8 (← byteReg? rex rm.num) (← byteReg? rex reg))
  | 0x69 => some (wideOnly rex fun reg operand =>
      match operand with
      | .reg rm => .word32 fun imm => some (.imulRRI (.ofNum reg) (.ofNum rm) imm.toInt32)
      | .mem _ => .none none)
  | 0x6B => some (wideOnly rex fun reg operand =>
      match operand with
      | .reg rm => .int8 fun imm => some (.imulRRI (.ofNum reg) (.ofNum rm) imm)
      | .mem _ => .none none)
  | 0x81 => some (wideOnly rex fun reg operand =>
      .word32 fun imm => (Alu.ofExtension? (reg &&& 7)).bind
        fun op => aluImm op operand imm.toInt32)
  | 0x83 => some (wideOnly rex fun reg operand =>
      .int8 fun imm => (Alu.ofExtension? (reg &&& 7)).bind fun op => aluImm op operand imm)
  | 0x85 => some (wideOnly rex fun reg => onReg fun rm => some (.test rm (.ofNum reg)))
  | 0x88 => some (.modrm fun reg => onMem fun mem => (byteReg? rex reg).map (.movMRByte mem))
  | 0x89 => some (.modrm fun reg operand =>
      match operand with
      | .reg rm => .none (if rex.wide then some (.movRR (.ofNum rm) (.ofNum reg)) else none)
      | .mem mem =>
        .none (some (if rex.wide then .movMR mem (.ofNum reg) else .movMR32 mem (.ofNum reg))))
  | 0x8B => some (.modrm fun reg => onMem fun mem =>
      some (if rex.wide then .movRM (.ofNum reg) mem else .movRM32 (.ofNum reg) mem))
  | 0x8D => some (wideOnly rex fun reg => onMem fun mem => some (.lea (.ofNum reg) mem))
  | 0x99 => some (.bare (.none (if rex.wide then some .cqo else none)))
  | 0xC1 => some (wideOnly rex fun reg operand =>
      match operand with
      | .reg rm =>
        .byte fun count =>
          if reg &&& 7 = 4 then some (.shlImm (.ofNum rm) count)
          else if reg &&& 7 = 7 then some (.sarImm (.ofNum rm) count)
          else none
      | .mem _ => .none none)
  | 0xC3 => some (.bare (.none (some .ret)))
  | 0xC7 => some (wideOnly rex fun reg operand =>
      .word32 fun imm =>
        if reg &&& 7 = 0 then
          match operand with
          | .reg rm => some (.movSigned (.ofNum rm) imm.toInt32)
          | .mem mem => some (.movMI mem imm.toInt32)
        else none)
  | 0xD3 => some (wideOnly rex (group fun ext =>
      if ext = 4 then some .shlCl else if ext = 7 then some .sarCl else none))
  | 0xE9 => some (.bare (.word32 fun disp => some (.jmp disp.toInt32)))
  | 0xF7 => some (wideOnly rex (group fun ext =>
      if ext = 2 then some .not else if ext = 3 then some .neg else if ext = 7 then some .idiv
        else none))
  | 0xFF => some (.modrm (group fun ext => if ext = 2 then some .call else none))
  | _ =>
    let reg := Reg.ofNum (extend rex.base (op &&& 7))
    if op &&& 0xF8 = 0x50 then some (.bare (.none (some (.push reg))))
    else if op &&& 0xF8 = 0x58 then some (.bare (.none (some (.pop reg))))
    else if op &&& 0xF8 = 0xB8 then
      if rex.wide then some (.bare (.word64 fun imm => some (.movImm64 reg imm)))
      else some (.bare (.word32 fun imm => some (.movImm32 reg imm)))
    else
      (Alu.ofExtension? (op >>> 3)).bind fun alu =>
        if op &&& 7 = 1 then
          some (.modrm fun reg => onReg fun rm =>
            if rex.wide then some (.aluRR alu rm (.ofNum reg))
            else if alu = .xor ∧ rm = .ofNum reg then some (.clear rm)
            else none)
        else if op &&& 7 = 3 then
          some (wideOnly rex fun reg => onMem fun mem => some (.aluRM alu (.ofNum reg) mem))
        else none

/-- Opcodes of two bytes, after the first. -/
def twoByte? (rex : Rex) (op : UInt8) : Option Form :=
  if op = 0xAF then
    some (wideOnly rex fun reg operand =>
      match operand with
      | .reg rm => .none (some (.imulRR (.ofNum reg) (.ofNum rm)))
      | .mem mem => .none (some (.imulRM (.ofNum reg) mem)))
  else if op = 0xB6 then
    some (wideOnly rex fun reg operand =>
      match operand with
      | .reg rm => .none (some (.movzxReg (.ofNum reg) (.ofNum rm)))
      | .mem mem => .none (some (.movzxByte (.ofNum reg) mem)))
  else if op &&& 0xF0 = 0x80 then
    some (.bare (.word32 fun disp => some (.jcc (.ofCode (op &&& 15)) disp.toInt32)))
  else if op &&& 0xF0 = 0x90 then
    some (.modrm fun _ => onReg fun rm => (byteReg? rex rm.num).map (.setcc (.ofCode (op &&& 15))))
  else none

/-- Opcodes of two bytes after the prefix `F2`: operations on doubles. -/
def doubleOp? (rex : Rex) (op : UInt8) : Option Form :=
  if op = 0x10 then
    some (.modrm fun reg operand =>
      match operand with
      | .reg rm => .none (some (.movsdRR ⟨reg⟩ ⟨rm⟩))
      | .mem mem => .none (some (.movsdRM ⟨reg⟩ mem)))
  else if op = 0x11 then some (.modrm fun reg => onMem fun mem => some (.movsdMR mem ⟨reg⟩))
  else if op = 0x2A then some (wideOnly rex fun reg => onReg fun rm => some (.cvtsi2sd ⟨reg⟩ rm))
  else if op = 0x2C then
    some (wideOnly rex fun reg operand =>
      match operand with
      | .reg rm => .none (some (.cvttsd2si (.ofNum reg) ⟨rm⟩))
      | .mem _ => .none none)
  else
    (SseOp.ofOpcode? op).map fun sse => .modrm fun reg operand =>
      match operand with
      | .reg rm => .none (some (.sse sse ⟨reg⟩ ⟨rm⟩))
      | .mem _ => .none none

/-- Opcodes of two bytes after the prefix `66`. -/
def packedOp? (rex : Rex) (op : UInt8) : Option Form :=
  if op = 0x6E then some (wideOnly rex fun reg => onReg fun rm => some (.movqToXmm ⟨reg⟩ rm))
  else if op = 0x7E then some (wideOnly rex fun reg => onReg fun rm => some (.movqFromXmm rm ⟨reg⟩))
  else
    (if op = 0x2E then some Instr.ucomisd else if op = 0x57 then some Instr.xorpd else none).map
      fun instr =>
      .modrm fun reg operand =>
        match operand with
        | .reg rm => .none (some (instr ⟨reg⟩ ⟨rm⟩))
        | .mem _ => .none none

/-- Reads an opcode of two bytes, and what follows it. -/
def readEscaped (table : Rex → UInt8 → Option Form) : Rex × List UInt8 → Option (Instr × List UInt8)
  | (rex, 0x0F :: op :: rest) => (table rex op).bind fun form => form.read rex rest
  | _ => none

/-- Reads an opcode without a prefix, and what follows it. -/
def readPlain : Rex × List UInt8 → Option (Instr × List UInt8)
  | (rex, op :: rest) =>
    if op = 0x0F then readEscaped twoByte? (rex, op :: rest)
    else (oneByte? rex op).bind fun form => form.read rex rest
  | _ => none

/-- Reads an instruction. -/
def decode : List UInt8 → Option (Instr × List UInt8)
  | 0xF2 :: rest => readEscaped doubleOp? (takeRex rest)
  | 0x66 :: rest => readEscaped packedOp? (takeRex rest)
  | bytes => readPlain (takeRex bytes)

/-- Reads instructions up to the end of the bytes, as many as there is fuel for. -/
def decodeFrom : Nat → List UInt8 → Option (List Instr)
  | _, [] => some []
  | 0, _ => none
  | fuel + 1, bytes => do
    let (instr, rest) ← decode bytes
    return instr :: (← decodeFrom fuel rest)

/-- Reads instructions up to the end of the bytes. -/
def decodeAll (bytes : List UInt8) : Option (List Instr) := decodeFrom bytes.length bytes

end StackMachine.X64
