import StackMachine.Code.LiteralPool
import StackMachine.Native.Backend
import StackMachine.X64.Instruction

/-!
# Lowering to x86-64

Each operation becomes a few instructions.  The frame pointer is `rbp`; below it are seven saved
registers and then the slots.  `rax`, `rdx`, `r11` and `xmm0` are scratch and never allocated.
-/

namespace StackMachine.X64

open Native

/-- The two calling conventions. -/
inductive Abi where
  | sysV
  | win64
  deriving DecidableEq, Repr

/-- Registers a method must preserve, in the order they are pushed. -/
def savedRegs : List Reg := [.rbx, .rsi, .rdi, .r12, .r13, .r14, .r15]

/-- The bytes they take. -/
def savedBytes : Int32 := 56

def scratch : Reg := .r11

def floatScratch : Xmm := ⟨0⟩

/-- The number of literals a method can have. -/
def maxLiterals : Nat := 256

namespace Abi

/-- Primary and auxiliary integer registers. -/
def intPools : Abi → List Reg × List Reg
  | .sysV => ([.rbx, .rcx, .rsi, .rdi], [.r8, .r9, .r10, .r12, .r13, .r14, .r15])
  | .win64 => ([.rbx, .rcx, .r8, .r9, .r10], [.rsi, .rdi])

def argRegs : Abi → List Reg
  | .sysV => [.rdi, .rsi, .rdx, .rcx, .r8, .r9]
  | .win64 => [.rcx, .rdx, .r8, .r9]

/-- Offset from `rbp` of the first argument on the stack. -/
def stackArgsAt : Abi → Int32
  | .sysV => 16
  | .win64 => 48

/-- Bytes reserved for an outgoing call, and where its first stack argument goes. -/
def callArea : Abi → Int32 × Int32
  | .sysV => (32, 0)
  | .win64 => (80, 32)

/-- Entry arguments that an outgoing call passes on the stack. -/
def stackPassed : Abi → List FrameSlot
  | .sysV => [.stackPos, .context, .callPos]
  | .win64 => [.receiver, .stackBase, .stackPos, .context, .callPos]

/-- Entry arguments that an outgoing call passes in registers after the first two. -/
def regPassed : Abi → List FrameSlot
  | .sysV => [.classId, .methodId, .receiver, .stackBase]
  | .win64 => [.classId, .methodId]

end Abi

instance : Encoding Instr where
  bytes := Instr.encode
  field i := (i.fieldOffset, .rel32)

abbrev Step := Native.Step Instr

/-- An open jump. -/
def Step.jump (target : JumpTarget) : Step := ⟨.jmp 0, some target⟩

def Step.branch (cond : Cond) (target : JumpTarget) : Step := ⟨.jcc cond 0, some target⟩

/-! ### Operands -/

/-- A memory operand without index. -/
def mem (base : Reg) (disp : Int32) : Mem := ⟨base, disp, none⟩

def slot (index : Nat) : Mem := mem .rbp (-savedBytes - 8 * (Int32.ofNat index + 1))

def argSlot (s : FrameSlot) : Mem := slot s.index

/-- The condition of a signed relation. -/
def condOf : Comparison → Cond
  | .eq => .e
  | .ne => .ne
  | .lt => .l
  | .gt => .g
  | .le => .le
  | .ge => .ge

def jumpOver (code : List Instr) : Instr := .jmp (Int32.ofNat (codeLength code))

/-- A conditional jump over instructions that follow it. -/
def branchOver (cond : Cond) (code : List Instr) : Instr :=
  .jcc cond (Int32.ofNat (codeLength code))

/-- Brings an operand into a register; immediates and slots go through the scratch register. -/
def srcReg : Src Reg → List Instr × Reg
  | .reg r => ([], r)
  | .imm value => ([.moveConst scratch value], scratch)
  | .slot index => ([.movRM scratch (slot index)], scratch)

/-! ### Integers -/

/-- An operation of the shared group. -/
def alu (op : Alu) (dst : Reg) (src : Src Reg) : List Instr :=
  match src with
  | .reg r => [.aluRR op dst r]
  | .slot index => [.aluRM op dst (slot index)]
  | .imm value =>
    if Word.fitsInt32 value then [.aluRI op dst value.toInt32]
    else [.moveConst scratch value, .aluRR op dst scratch]

def multiply (dst : Reg) (src : Src Reg) : List Instr :=
  match src with
  | .reg r => [.imulRR dst r]
  | .slot index => [.imulRM dst (slot index)]
  | .imm value =>
    if Word.fitsInt32 value then [.imulRRI dst dst value.toInt32]
    else [.moveConst scratch value, .imulRR dst scratch]

/-- A shift.  A count that is not constant has to be in `cl`, which may be in use, so `rcx` is kept
in the scratch register and the value is shifted in `rax`. -/
def shift (left : Bool) (dst : Reg) (src : Src Reg) : List Instr :=
  let fetch (count : List Instr) :=
    [.movRR .rax dst, .movRR scratch .rcx] ++ count ++
      [if left then .shlCl .rax else .sarCl .rax, .movRR .rcx scratch, .movRR dst .rax]
  match src with
  | .imm value =>
    let count := Word.lowByte (value &&& 63)
    [if left then .shlImm dst count else .sarImm dst count]
  | .reg r => fetch (if r = .rcx then [] else [.movRR .rcx r])
  | .slot index => fetch [.movRM .rcx (slot index)]

/-- An integer operation. -/
def intOp (op : IntOp) (dst : Reg) (src : Src Reg) : List Instr :=
  match op with
  | .add => alu .add dst src
  | .sub => alu .sub dst src
  | .and => alu .and dst src
  | .or => alu .or dst src
  | .xor => alu .xor dst src
  | .mul => multiply dst src
  | .shl => shift true dst src
  | .shr => shift false dst src

/-- Division.  A divisor of -1 is handled apart, because the hardware traps on the least word. -/
def divide (remainder : Bool) (dst : Reg) (src : Src Reg) (onZero : JumpTarget) : List Step :=
  let (load, divisor) := srcReg src
  let general : List Instr :=
    [.movRR .rax dst, .cqo, .idiv divisor, .movRR dst (if remainder then .rdx else .rax)]
  let byMinusOne : List Instr :=
    [if remainder then .moveConst dst 0 else .neg dst, jumpOver general]
  Step.plain (load ++ [.test divisor divisor]) ++ [Step.branch .e onZero] ++
    Step.plain ([.aluRI .cmp divisor (-1), branchOver .ne byMinusOne] ++ byMinusOne ++ general)

/-! ### Doubles -/

/-- Compares two doubles; relations that look downwards exchange their operands, so that an
unordered pair fails them. -/
def floatCompare (relation : Comparison) (left right : Xmm) : Instr :=
  match relation with
  | .lt | .le => .ucomisd right left
  | _ => .ucomisd left right

/-- The truth value of a comparison of doubles. -/
def floatCompareSet (relation : Comparison) (dst : Reg) (left right : Xmm) : List Instr :=
  let test : List Instr :=
    match relation with
    | .gt | .lt => [.setcc .a .rax]
    | .ge | .le => [.setcc .ae .rax]
    | .eq => [.setcc .e .rax, .setcc .np .rdx, .and8 .rax .rdx]
    | .ne => [.setcc .ne .rax, .setcc .p .rdx, .or8 .rax .rdx]
  floatCompare relation left right :: test ++ [.movzxReg dst .rax]

/-- Jumps on a zero flag that was not set by an unordered pair. -/
def branchOrderedEqual (target : JumpTarget) : List Step :=
  [⟨branchOver .p [.jcc .e 0], none⟩, Step.branch .e target]

/-- Jumps when a comparison of doubles has the expected truth value. -/
def floatCompareBranch (relation : Comparison) (expected : Bool) (left right : Xmm)
    (target : JumpTarget) : List Step :=
  let jumps :=
    match relation, expected with
    | .gt, true | .lt, true => [Step.branch .a target]
    | .ge, true | .le, true => [Step.branch .ae target]
    | .gt, false | .lt, false => [Step.branch .be target]
    | .ge, false | .le, false => [Step.branch .b target]
    | .eq, true | .ne, false => branchOrderedEqual target
    | .ne, true | .eq, false => [Step.branch .p target, Step.branch .ne target]
  Step.plain [floatCompare relation left right] ++ jumps

/-- The instruction of a float operation. -/
def sseOf : FloatOp → SseOp
  | .add => .add
  | .sub => .sub
  | .mul => .mul
  | .div => .div

/-! ### Memory and the operand stack -/

def loadMem (width : Width) (dst : Reg) (m : Mem) : Instr :=
  match width with
  | .byte => .movzxByte dst m
  | .char => .movRM32 dst m
  | .word => .movRM dst m

def storeMem (width : Width) (m : Mem) (src : Src Reg) : List Instr :=
  let through : List Instr :=
    let (load, value) := srcReg src
    load ++
      [match width with
        | .byte => .movMRByte m value
        | .char => .movMR32 m value
        | .word => .movMR m value]
  match width, src with
  | .word, .imm value => if Word.fitsInt32 value then [.movMI m value.toInt32] else through
  | _, _ => through

/-- Leaves the address of the word to be pushed in the scratch register and moves the position. -/
def pushAddress : List Instr :=
  [.movRM .rax (argSlot .stackPos), .movRM .rdx (mem .rax 0), .movRM scratch (argSlot .stackBase),
    .lea scratch ⟨scratch, 0, some (.rdx, 8)⟩, .aluMI .add (mem .rax 0) 1]

/-- Moves the position and leaves the address of the popped word in the scratch register. -/
def popAddress : List Instr :=
  [.movRM .rax (argSlot .stackPos), .aluMI .sub (mem .rax 0) 1, .movRM .rdx (mem .rax 0),
    .movRM scratch (argSlot .stackBase), .lea scratch ⟨scratch, 0, some (.rdx, 8)⟩]

/-- Pushes an operand. -/
def push (src : Src Reg) : List Instr :=
  let top := mem scratch 0
  pushAddress ++
    match src with
    | .reg r => [.movMR top r]
    | .imm value =>
      if Word.fitsInt32 value then [.movMI top value.toInt32]
      else [.moveConst .rdx value, .movMR top .rdx]
    | .slot index => [.movRM .rdx (slot index), .movMR top .rdx]

/-- Reads the position before a stack reservation. -/
def reserveLead : List Instr := [.movRM .rax (argSlot .stackPos), .movRM .rax (mem .rax 0)]

/-- A stack reservation. -/
def reserve (words : UInt32) (onOverflow : JumpTarget) : List Step :=
  Step.plain
      (reserveLead ++
        [.movImm32 .rdx words, .aluRR .add .rax .rdx, .movRM scratch (argSlot .context),
          .aluRM .cmp .rax (mem scratch (Int32.ofNat stackLimitOffset))]) ++
    [Step.branch .g onOverflow]

/-! ### Frames and calls -/

/-- Bytes below the saved registers; they keep the stack pointer aligned. -/
def frameBytes (locals : Nat) : Int32 :=
  let slots := frameSlots locals
  Int32.ofNat (8 * (slots + (slots + 1) % 2))

/-- Stores the entry arguments into their slots, from registers while there are any. -/
def storeArgs (abi : Abi) : List FrameSlot → List Reg → Int32 → List Instr
  | [], _, _ => []
  | arg :: rest, reg :: regs, disp => .movMR (argSlot arg) reg :: storeArgs abi rest regs disp
  | arg :: rest, [], disp =>
    [.movRM .rax (mem .rbp disp), .movMR (argSlot arg) .rax] ++ storeArgs abi rest [] (disp + 8)

/-- Opens a frame. -/
def prologue (abi : Abi) (locals : Nat) : List Instr :=
  [.push .rbp, .movRR .rbp .rsp] ++ savedRegs.map .push ++
    [.aluRI .sub .rsp (frameBytes locals)] ++
    storeArgs abi FrameSlot.all abi.argRegs abi.stackArgsAt ++
    [if locals = 0 then .moveConst .rax 0 else .lea .rax (slot (localSlot (locals - 1))),
      .movRM .rdx (argSlot .localsOut), .movMR (mem .rdx 0) .rax,
      .movRM .rdx (argSlot .localsCount), .movMI (mem .rdx 0) (Int32.ofNat locals),
      .moveConst .rax 0] ++
    (List.range locals).map fun k => .movMR (slot (localSlot k)) .rax

/-- Closes a frame. -/
def teardown : List Instr :=
  .lea .rsp (mem .rbp (-savedBytes)) :: savedRegs.reverse.map .pop ++ [.pop .rbp, .ret]

/-- Passes entry arguments on the stack, and the instruction number after them. -/
def passOnStack (ip : Word) : List FrameSlot → Int32 → List Instr
  | [], disp => [.movMI (mem .rsp disp) ip.toInt32]
  | arg :: rest, disp =>
    [.movRM .rax (argSlot arg), .movMR (mem .rsp disp) .rax] ++ passOnStack ip rest (disp + 8)

def callRuntime (abi : Abi) (entry tag address ip : Word) (onHalt : JumpTarget) : List Step :=
  let (area, first) := abi.callArea
  let constants := (abi.argRegs.zip [tag, address]).map fun (reg, value) => .moveConst reg value
  let loads := ((abi.argRegs.drop 2).zip abi.regPassed).map fun (reg, arg) =>
    .movRM reg (argSlot arg)
  Step.plain
      ([.aluRI .sub .rsp area] ++ passOnStack ip abi.stackPassed first ++ constants ++ loads ++
        [.movImm64 .rax entry, .call .rax, .aluRI .add .rsp area, .movRM .rax (argSlot .context),
          .aluMI .cmp (mem .rax 0) 0]) ++
    [Step.branch .ne onHalt]

/-! ### Operations -/

/-- The instructions of an operation that needs no literal. -/
def select (abi : Abi) (addresses : Addresses) : Operation Reg Xmm → List Step
  | .prologue locals => Step.plain (prologue abi (layoutLocals locals))
  | .status value => Step.plain [.moveConst .rax value] ++ [Step.jump .teardown]
  | .teardown => Step.plain teardown
  | .bind _ => []
  | .jump target => [Step.jump target]
  | .loadImm dst value => Step.plain [.moveConst dst value]
  | .loadFloatImm dst _ => Step.plain [.xorpd dst dst]
  | .move dst src => if dst = src then [] else Step.plain [.movRR dst src]
  | .moveFloat dst src => if dst = src then [] else Step.plain [.movsdRR dst src]
  | .int op dst src => Step.plain (intOp op dst src)
  | .not dst => Step.plain [.not dst]
  | .divide remainder dst src onZero => divide remainder dst src onZero
  | .compare left right => Step.plain (alu .cmp left right)
  | .setCond dst relation => Step.plain [.setcc (condOf relation) .rax, .movzxReg dst .rax]
  | .branch relation target => [Step.branch (condOf relation) target]
  | .floatCompareSet relation dst left right =>
    Step.plain (floatCompareSet relation dst left right)
  | .floatCompareBranch relation expected left right target =>
    floatCompareBranch relation expected left right target
  | .float op dst src => Step.plain [.sse (sseOf op) dst src]
  | .floatZeroBranch src target =>
    Step.plain [.xorpd floatScratch floatScratch, .ucomisd src floatScratch] ++
      branchOrderedEqual target
  | .intToFloat dst src => Step.plain [.cvtsi2sd dst src]
  | .floatToInt dst src => Step.plain [.cvttsd2si dst src]
  | .bitsToFloat dst src => Step.plain [.movqToXmm dst src]
  | .bitsToInt dst src => Step.plain [.movqFromXmm dst src]
  | .load width dst base disp => Step.plain [loadMem width dst (mem base disp)]
  | .store width base disp src => Step.plain (storeMem width (mem base disp) src)
  | .loadFloat dst base disp => Step.plain [.movsdRM dst (mem base disp)]
  | .storeFloat base disp src => Step.plain [.movsdMR (mem base disp) src]
  | .loadSlot dst index => Step.plain [.movRM dst (slot index)]
  | .storeSlot index src => Step.plain (storeMem .word (slot index) src)
  | .loadFloatSlot dst index => Step.plain [.movsdRM dst (slot index)]
  | .storeFloatSlot index src => Step.plain [.movsdMR (slot index) src]
  | .nilBranch reg target => Step.plain [.test reg reg] ++ [Step.branch .e target]
  | .boundsBranch index array under above =>
    Step.plain [.test index index] ++ [Step.branch .s under] ++
      Step.plain [.aluRM .cmp index (mem array 0)] ++ [Step.branch .ge above]
  | .scaleByExtent index array dim =>
    Step.plain [.imulRM index (mem array (8 * (2 + Int32.ofNat dim)))]
  | .elementAddress index array shift disp =>
    Step.plain [.lea index ⟨array, disp, some (index, 1 <<< shift)⟩]
  | .push src => Step.plain (push src)
  | .pushFloat src => Step.plain (pushAddress ++ [.movsdMR (mem scratch 0) src])
  | .pop dst => Step.plain (popAddress ++ [.movRM dst (mem scratch 0)])
  | .popFloat dst => Step.plain (popAddress ++ [.movsdRM dst (mem scratch 0)])
  | .dropTop => Step.plain [.movRM .rax (argSlot .stackPos), .aluMI .sub (mem .rax 0) 1]
  | .reserve words onOverflow => reserve words onOverflow
  | .callRuntime tag address ip onHalt => callRuntime abi addresses.runtime tag address ip onHalt

/-- Loads a literal from the pool; the only double with an instruction of its own is zero. -/
def lower (abi : Abi) (addresses : Addresses) (pool : LiteralPool) (op : Operation Reg Xmm) :
    Except CompileError (List Step × LiteralPool) :=
  match op with
  | .loadFloatImm dst value =>
    if value.bits = 0 then .ok (select abi addresses op, pool)
    else
      match pool.place? value.bits with
      | some (index, pool) =>
        let address := addresses.literals + 8 * Word.ofNat index
        .ok (Step.plain [.moveConst scratch address, .movsdRM dst (mem scratch 0)], pool)
      | none => .error .constPoolFull
  | op => .ok (select abi addresses op, pool)

/-- The x86-64 backend of a calling convention. -/
def backend (abi : Abi) (addresses : Addresses := {}) : Backend Reg Xmm LiteralPool where
  ints := .new abi.intPools.1 abi.intPools.2 .rax
  floats := .new [⟨1⟩, ⟨2⟩, ⟨3⟩, ⟨4⟩] [⟨5⟩] floatScratch
  noLiterals := { capacity := maxLiterals }
  lower pool op := do
    let (steps, pool) ← lower abi addresses pool op
    return (steps.map Step.piece, pool)
  literalWords := LiteralPool.contents
  reserveField := codeLength reserveLead + Instr.fieldOffset (.movImm32 .rdx 0)
  patchReserve code field words := (code.patch32? field words).getD code

end StackMachine.X64
