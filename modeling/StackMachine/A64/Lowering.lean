import StackMachine.Code.LiteralPool
import StackMachine.Native.Backend
import StackMachine.A64.Instruction

/-!
# Lowering to AArch64

Each operation becomes a few instructions.  Slots are addressed upwards from the stack pointer;
above them are the saved registers, below the frame pointer.  `x14` to `x17` are scratch and never
allocated.  Wide integers and doubles come from the literal pool while it has room, and are put
together in a register after that.
-/

namespace StackMachine.A64

open Native

/-- Pooled doubles, and pooled integers after them. -/
structure Literals where
  doubles : LiteralPool := { capacity := 64 }
  ints : LiteralPool := { capacity := 128 }
  deriving DecidableEq, Repr

/-- The pool in memory. -/
def Literals.contents (l : Literals) : List UInt64 := l.doubles.contents ++ l.ints.contents

/-- The most slots the offsets of loads and stores can reach. -/
def maxFrameSlots : Nat := 4095

/-- Pairs of general registers a method must preserve. -/
def savedPairs : List (Reg × Reg) :=
  [(.x19, .x20), (.x21, .x22), (.x23, .x24), (.x25, .x26), (.x27, .x28)]

/-- Pairs of float registers a method must preserve. -/
def savedFloatPairs : List (DReg × DReg) :=
  [(⟨8⟩, ⟨9⟩), (⟨10⟩, ⟨11⟩), (⟨12⟩, ⟨13⟩), (⟨14⟩, ⟨15⟩)]

/-- The bytes they take. -/
def savedBytes : Nat := 16 * (savedPairs.length + savedFloatPairs.length)

def valueScratch : Reg := .x16

def addrScratch : Reg := .x17

/-- First further scratch register. -/
def scratch0 : Reg := .x15

/-- Second further scratch register. -/
def scratch1 : Reg := .x14

def argRegs : List Reg := [.x0, .x1, .x2, .x3, .x4, .x5, .x6, .x7]

/-- How the displacement of a branch is encoded. -/
def Instr.siteKind : Instr → SiteKind
  | .b _ => .imm26
  | _ => .imm19

instance : Encoding Instr where
  bytes := Instr.bytes
  field i := (0, i.siteKind)

abbrev Step := Native.Step Instr

/-- An open jump. -/
def Step.jump (target : JumpTarget) : Step := ⟨.b 0, some target⟩

def Step.branch (cond : Cond) (target : JumpTarget) : Step := ⟨.bCond cond 0, some target⟩

/-! ### Operands -/

def slotOffset (index : Nat) : UInt32 := 8 * UInt32.ofNat index

/-- The byte offset of an entry argument. -/
def argOffset (s : FrameSlot) : UInt32 := slotOffset s.index

/-- The condition of a signed relation. -/
def condOf : Comparison → Cond
  | .eq => .eq
  | .ne => .ne
  | .lt => .lt
  | .gt => .gt
  | .le => .le
  | .ge => .ge

/-- The condition of a relation on doubles: an unordered pair fails it, except `ne`. -/
def floatCondOf : Comparison → Cond
  | .eq => .eq
  | .ne => .ne
  | .lt => .mi
  | .le => .ls
  | .gt => .gt
  | .ge => .ge

/-- Code that may have added to the literals. -/
abbrev Select := StateM Literals

/-- Pools a wide integer if there is room. -/
def poolInt? (value : Word) : Select (Option Nat) := do
  let l ← get
  match l.ints.place? value.toUInt64 with
  | some (index, ints) =>
    set { l with ints }
    return some (l.doubles.capacity + index)
  | none => return none

def poolDouble? (value : Double) : Select (Option Nat) := do
  let l ← get
  match l.doubles.place? value.bits with
  | some (index, doubles) =>
    set { l with doubles }
    return some index
  | none => return none

def loadPoolBase : Instr := .ldr addrScratch .sp (argOffset .literals)

/-- Loads an integer: one that takes more than two instructions comes from the pool. -/
def loadImm (dst : Reg) (value : Word) : Select (List Instr) := do
  if 2 < moveConstLength value then
    match ← poolInt? value with
    | some index => return [loadPoolBase, .ldr dst addrScratch (slotOffset index)]
    | none => return moveConst dst value
  else return moveConst dst value

def loadFloatImm (dst : DReg) (value : Double) : Select (List Instr) := do
  if value.bits = 0 then return [.fmovFromGpr dst Reg.zr]
  else
    match ← poolDouble? value with
    | some index => return [loadPoolBase, .ldrD dst addrScratch (slotOffset index)]
    | none => return moveConst valueScratch value.toWord ++ [.fmovFromGpr dst valueScratch]

/-- Brings an operand into a register; zero has one of its own. -/
def srcReg (src : Src Reg) : Select (List Instr × Reg) := do
  match src with
  | .reg r => return ([], r)
  | .imm value =>
    if value = 0 then return ([], Reg.zr) else return (← loadImm valueScratch value, valueScratch)
  | .slot index => return ([.ldr valueScratch .sp (slotOffset index)], valueScratch)

/-- The bytes of an access. -/
def accessSize : Width → UInt32
  | .byte => 1
  | .char => 4
  | .word => 8

/-- Base register and offset of an access; an offset that does not fit goes through the address
scratch register. -/
def address (base : Reg) (disp : Int32) (size : UInt32) : List Instr × Reg × UInt32 :=
  let offset := disp.toUInt32
  if 0 ≤ disp ∧ offset % size = 0 ∧ offset / size < 4096 then ([], base, offset)
  else
    (moveConst addrScratch disp.toInt64 ++ [.reg .add addrScratch base addrScratch], addrScratch, 0)

/-! ### Integers -/

def fitsImm (value : Word) : Bool := decide (0 ≤ value) && decide (value < 4096)

/-- Does the opposite of a negative value fit the 12-bit immediate? -/
def fitsNegImm (value : Word) : Bool := decide (-4095 ≤ value) && decide (value < 0)

def immOf (value : Word) : UInt16 := value.toUInt64.toUInt16

/-- The register form of an integer operation; shifts count modulo 64. -/
def regOpOf : IntOp → RegOp
  | .add => .add
  | .sub => .sub
  | .mul => .mul
  | .and => .and
  | .or => .orr
  | .xor => .eor
  | .shl => .lslv
  | .shr => .asrv

/-- The immediate form of an integer operation, where there is one. -/
def immForm? (op : IntOp) (dst : Reg) (value : Word) : Option Instr :=
  let count := Word.lowByte (value &&& 63)
  match op with
  | .add =>
    if fitsImm value then some (.addImm dst dst (immOf value))
    else if fitsNegImm value then some (.subImm dst dst (immOf (-value)))
    else none
  | .sub =>
    if fitsImm value then some (.subImm dst dst (immOf value))
    else if fitsNegImm value then some (.addImm dst dst (immOf (-value)))
    else none
  | .shl => some (.lslImm dst dst count)
  | .shr => some (.asrImm dst dst count)
  | _ => none

/-- An integer operation. -/
def intOp (op : IntOp) (dst : Reg) (src : Src Reg) : Select (List Instr) := do
  let through : Select (List Instr) := do
    let (load, r) ← srcReg src
    return load ++ [.reg (regOpOf op) dst dst r]
  match src with
  | .imm value =>
    match immForm? op dst value with
    | some i => return [i]
    | none => through
  | _ => through

/-- Division; the hardware wraps the least word divided by -1. -/
def divide (remainder : Bool) (dst : Reg) (src : Src Reg) (onZero : JumpTarget) :
    Select (List Step) := do
  let (load, divisor) ←
    if src = .imm 0 then pure ([Instr.mov valueScratch Reg.zr], valueScratch) else srcReg src
  let quotient : List Instr :=
    if remainder then
      [.reg .sdiv addrScratch dst divisor, .msub dst addrScratch divisor dst]
    else [.reg .sdiv dst dst divisor]
  return Step.plain load ++ [⟨.cbz divisor 0, some onZero⟩] ++ Step.plain quotient

def compare (left : Reg) (right : Src Reg) : Select (List Instr) := do
  let through : Select (List Instr) := do
    let (load, r) ← srcReg right
    return load ++ [.cmp left r]
  match right with
  | .imm value =>
    if fitsImm value then return [.cmpImm left (immOf value)]
    else if fitsNegImm value then return [.cmnImm left (immOf (-value))]
    else through
  | _ => through

/-! ### Doubles -/

/-- The instruction of a float operation. -/
def floatRegOpOf : FloatOp → FloatRegOp
  | .add => .add
  | .sub => .sub
  | .mul => .mul
  | .div => .div

/-- Truncation.  The hardware saturates; the greatest word only comes from saturation and is turned
into the least, and so is the result of a NaN. -/
def floatToInt (dst : Reg) (src : DReg) : List Instr :=
  [.fcvtzs dst src, .movz scratch0 0x8000 3, .cmnImm dst 1, .csel dst scratch0 dst .vs,
    .fcmp src src, .csel dst scratch0 dst .vs]

/-! ### Memory and the operand stack -/

def loadMem (width : Width) (dst base : Reg) (disp : Int32) : List Instr :=
  let (lead, base, offset) := address base disp (accessSize width)
  lead ++
    [match width with
      | .byte => .ldrByte dst base offset
      | .char => .ldrHalf dst base offset
      | .word => .ldr dst base offset]

def storeMem (width : Width) (base : Reg) (disp : Int32) (src : Src Reg) :
    Select (List Instr) := do
  let (load, value) ← srcReg src
  let (lead, base, offset) := address base disp (accessSize width)
  return load ++ lead ++
    [match width with
      | .byte => .strByte value base offset
      | .char => .strHalf value base offset
      | .word => .str value base offset]

/-- Leaves the address of the position in `x17`, the position in `x15` and the base of the operand
stack in `x14`. -/
def stackPosition : List Instr :=
  [.ldr addrScratch .sp (argOffset .stackPos), .ldr scratch0 addrScratch 0,
    .ldr scratch1 .sp (argOffset .stackBase)]

/-- Moves the position one word up. -/
def advance : List Instr := [.addImm scratch0 scratch0 1, .str scratch0 addrScratch 0]

/-- Moves the position one word down. -/
def retreat : List Instr := [.subImm scratch0 scratch0 1, .str scratch0 addrScratch 0]

/-- Reads the position before a stack reservation. -/
def reserveLead : List Instr :=
  [.ldr addrScratch .sp (argOffset .stackPos), .ldr scratch0 addrScratch 0]

/-- A stack reservation. -/
def reserve (words : UInt32) (onOverflow : JumpTarget) : List Step :=
  Step.plain
      (reserveLead ++
        [.movz scratch1 words.toUInt16 0, .movk scratch1 (words >>> 16).toUInt16 1,
          .reg .add scratch0 scratch0 scratch1, .ldr addrScratch .sp (argOffset .context),
          .ldr addrScratch addrScratch (UInt32.ofNat stackLimitOffset),
          .cmp scratch0 addrScratch]) ++
    [Step.branch .gt onOverflow]

/-! ### Frames and calls -/

/-- Bytes below the frame pointer, a multiple of 16. -/
def frameBytes (locals : Nat) : Nat := savedBytes + (8 * frameSlots locals + 15) / 16 * 16

/-- Moves the stack pointer in steps an immediate can hold. -/
def adjustSp (bytes : Nat) (grow : Bool) : List Instr :=
  let step (n : Nat) : Instr :=
    if grow then .subImm .sp .sp (UInt16.ofNat n) else .addImm .sp .sp (UInt16.ofNat n)
  List.replicate (bytes / 4080) (step 4080) ++
    if bytes % 4080 = 0 then [] else [step (bytes % 4080)]

def pairOffset (place : Nat) : Int16 := -16 * (Int16.ofNat place + 1)

/-- Numbers the elements of a list from a place on. -/
def numbered {α : Type} : Nat → List α → List (Nat × α)
  | _, [] => []
  | n, a :: rest => (n, a) :: numbered (n + 1) rest

/-- Stores one entry argument: the first eight come in registers. -/
def storeArg (place : Nat) (arg : FrameSlot) : List Instr :=
  match argRegs[place]? with
  | some reg => [.str reg .sp (argOffset arg)]
  | none =>
    [.ldr valueScratch .fp (16 + 8 * UInt32.ofNat (place - argRegs.length)),
      .str valueScratch .sp (argOffset arg)]

/-- Opens a frame. -/
def prologue (locals : Nat) : List Instr :=
  [.stpPre .fp .lr (-16), .movSp .fp .sp] ++ adjustSp (frameBytes locals) true ++
    ((numbered 0 savedPairs).map fun (n, a, b) => .stp a b .fp (pairOffset n)) ++
    ((numbered savedPairs.length savedFloatPairs).map fun (n, a, b) =>
      .stpD a b .fp (pairOffset n)) ++
    ((numbered 0 FrameSlot.all).flatMap fun (n, arg) => storeArg n arg) ++
    [if locals = 0 then .mov valueScratch Reg.zr
      else .addImm valueScratch .sp (slotOffset localsBase).toUInt16,
      .ldr addrScratch .sp (argOffset .localsOut), .str valueScratch addrScratch 0] ++
    moveConst valueScratch (Word.ofNat locals) ++
    [.ldr addrScratch .sp (argOffset .localsCount), .str valueScratch addrScratch 0] ++
    (List.range locals).map fun k => .str Reg.zr .sp (slotOffset (localSlot k))

/-- Closes a frame. -/
def teardown : List Instr :=
  ((numbered 0 savedPairs).map fun (n, a, b) => .ldp a b .fp (pairOffset n)) ++
    ((numbered savedPairs.length savedFloatPairs).map fun (n, a, b) =>
      .ldpD a b .fp (pairOffset n)) ++
    [.movSp .sp .fp, .ldpPost .fp .lr 16, .ret]

/-- Calls the runtime; the last two arguments go on the stack. -/
def callRuntime (entry tag address ip : Word) (onHalt : JumpTarget) : List Step :=
  let load (reg : Reg) (arg : FrameSlot) : Instr := .ldr reg .sp (16 + argOffset arg)
  Step.plain
      (adjustSp 16 true ++ moveConst .x0 tag ++ moveConst .x1 address ++
        [load .x2 .classId, load .x3 .methodId, load .x4 .receiver, load .x5 .stackBase,
          load .x6 .stackPos, load .x7 .context, load valueScratch .callPos,
          .str valueScratch .sp 0] ++
        moveConst valueScratch ip ++ [.str valueScratch .sp 8] ++ moveConst valueScratch entry ++
        [.blr valueScratch] ++ adjustSp 16 false ++
        [.ldr addrScratch .sp (argOffset .context), .ldr addrScratch addrScratch 0]) ++
    [⟨.cbnz addrScratch 0, some onHalt⟩]

/-! ### Operations -/

/-- The instructions of an operation. -/
def select (addresses : Addresses) : Operation Reg DReg → Select (List Step)
  | .prologue locals => return Step.plain (prologue (layoutLocals locals))
  | .status value => return Step.plain (moveConst .x0 value) ++ [Step.jump .teardown]
  | .teardown => return Step.plain teardown
  | .bind _ => return []
  | .jump target => return [Step.jump target]
  | .loadImm dst value => return Step.plain (← loadImm dst value)
  | .loadFloatImm dst value => return Step.plain (← loadFloatImm dst value)
  | .move dst src => return if dst = src then [] else Step.plain [.mov dst src]
  | .moveFloat dst src => return if dst = src then [] else Step.plain [.fmov dst src]
  | .int op dst src => return Step.plain (← intOp op dst src)
  | .not dst => return Step.plain [.mvn dst dst]
  | .divide remainder dst src onZero => divide remainder dst src onZero
  | .compare left right => return Step.plain (← compare left right)
  | .setCond dst relation => return Step.plain [.cset dst (condOf relation)]
  | .branch relation target => return [Step.branch (condOf relation) target]
  | .floatCompareSet relation dst left right =>
    return Step.plain [.fcmp left right, .cset dst (floatCondOf relation)]
  | .floatCompareBranch relation expected left right target =>
    let cond := floatCondOf relation
    return Step.plain [.fcmp left right] ++
      [Step.branch (if expected then cond else cond.invert) target]
  | .float op dst src => return Step.plain [.float (floatRegOpOf op) dst dst src]
  | .floatZeroBranch src target => return Step.plain [.fcmpZero src] ++ [Step.branch .eq target]
  | .intToFloat dst src => return Step.plain [.scvtf dst src]
  | .floatToInt dst src => return Step.plain (floatToInt dst src)
  | .bitsToFloat dst src => return Step.plain [.fmovFromGpr dst src]
  | .bitsToInt dst src => return Step.plain [.fmovToGpr dst src]
  | .load width dst base disp => return Step.plain (loadMem width dst base disp)
  | .store width base disp src => return Step.plain (← storeMem width base disp src)
  | .loadFloat dst base disp =>
    let (lead, base, offset) := address base disp 8
    return Step.plain (lead ++ [.ldrD dst base offset])
  | .storeFloat base disp src =>
    let (lead, base, offset) := address base disp 8
    return Step.plain (lead ++ [.strD src base offset])
  | .loadSlot dst index => return Step.plain [.ldr dst .sp (slotOffset index)]
  | .storeSlot index src => do
    let (load, value) ← srcReg src
    return Step.plain (load ++ [.str value .sp (slotOffset index)])
  | .loadFloatSlot dst index => return Step.plain [.ldrD dst .sp (slotOffset index)]
  | .storeFloatSlot index src => return Step.plain [.strD src .sp (slotOffset index)]
  | .nilBranch reg target => return [⟨.cbz reg 0, some target⟩]
  | .boundsBranch index array under above =>
    return Step.plain [.cmpImm index 0] ++ [Step.branch .lt under] ++
      Step.plain [.ldr addrScratch array 0, .cmp index addrScratch] ++ [Step.branch .ge above]
  | .scaleByExtent index array dim =>
    return Step.plain
      [.ldr addrScratch array (8 * (2 + UInt32.ofNat dim)), .reg .mul index index addrScratch]
  | .elementAddress index array shift disp =>
    let scaled : Instr :=
      if 0 < shift then .addShifted index array index shift else .reg .add index array index
    let displaced : List Instr :=
      if 0 ≤ disp ∧ disp < 4096 then [.addImm index index disp.toUInt32.toUInt16]
      else moveConst addrScratch disp.toInt64 ++ [.reg .add index index addrScratch]
    return Step.plain (scaled :: displaced)
  | .push src => do
    let (load, value) ← srcReg src
    return Step.plain (load ++ stackPosition ++ [.strIndexed value scratch1 scratch0] ++ advance)
  | .pushFloat src =>
    return Step.plain (stackPosition ++ [.strDIndexed src scratch1 scratch0] ++ advance)
  | .pop dst => return Step.plain (stackPosition ++ retreat ++ [.ldrIndexed dst scratch1 scratch0])
  | .popFloat dst =>
    return Step.plain (stackPosition ++ retreat ++ [.ldrDIndexed dst scratch1 scratch0])
  | .dropTop =>
    return Step.plain
      ([.ldr addrScratch .sp (argOffset .stackPos), .ldr scratch0 addrScratch 0] ++ retreat)
  | .reserve words onOverflow => return reserve words onOverflow
  | .callRuntime tag address ip onHalt =>
    return callRuntime addresses.runtime tag address ip onHalt

/-- Writes a half of a reservation's word count into the instruction that loads it. -/
def patchHalf (code : CodeBuffer) (field : Nat) (half : UInt32) : CodeBuffer :=
  match code.read32? field with
  | some inst =>
    (code.patch32? field ((inst &&& ~~~((0xFFFF : UInt32) <<< 5)) ||| (half <<< 5))).getD code
  | none => code

/-- The AArch64 backend. -/
def backend (addresses : Addresses := {}) : Backend Reg DReg Literals where
  ints := .new [.x19, .x20, .x21, .x22, .x23, .x24] [.x25, .x26, .x27, .x28] .x0
  floats := .new [⟨8⟩, ⟨9⟩, ⟨10⟩, ⟨11⟩, ⟨12⟩, ⟨13⟩] [⟨14⟩, ⟨15⟩] ⟨0⟩
  noLiterals := {}
  lower literals op :=
    let (steps, literals) := select addresses op literals
    .ok (steps.map Step.piece, literals)
  literalWords := Literals.contents
  reserveField := 4 * reserveLead.length
  patchReserve code field words :=
    patchHalf (patchHalf code field (words &&& 0xFFFF)) (field + 4) (words >>> 16)
  maxSlots := some maxFrameSlots

end StackMachine.A64
