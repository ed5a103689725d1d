import Mathlib.Logic.Function.Basic
import Mathlib.Logic.Relation
import StackMachine.Heap.Element
import StackMachine.Proofs.Native.Machine
import StackMachine.Proofs.X64.Decoding

/-!
# Execution of x86-64 instructions

A processor has sixteen registers, the low words of the SSE registers, the flags that conditions
look at, and memory of bytes.  It executes code that is given as bytes: `step` reads the instruction
at an offset, by the format of the instructions, and executes it.  A jump adds its displacement to
the offset after it, so code can stand anywhere.

Execution stops at a division that has no quotient of 64 bits.  It also stops where the value of a
flag would be needed that an earlier instruction has left open; no instruction gives such a flag a
value (`Flags`).

Instructions in a row are executed one after another, up to the offset after the last
(`Runs.block`).
-/

namespace StackMachine.X64

open Native

variable {s t : Cpu} {i : Instr}

/-! ### Flags -/

/-- The flags.  One that has been left open has no value. -/
structure Flags where
  carry : Option Bool
  parity : Option Bool
  zero : Option Bool
  sign : Option Bool
  overflow : Option Bool
  deriving DecidableEq, Repr

/-- Is the number of ones in the low byte even? -/
def evenParity (w : Word) : Bool :=
  ((List.range 8).countP fun i => (Word.lowByte w).toNat.testBit i) % 2 == 0

def Flags.ofResult (result : Word) (carry overflow : Option Bool) : Flags where
  carry := carry
  parity := some (evenParity result)
  zero := some (result == 0)
  sign := some (decide (result < 0))
  overflow := overflow

/-- No flag has a value. -/
def Flags.allOpen : Flags := ⟨none, none, none, none, none⟩

/-- Whether a condition holds, unless it looks at a flag that is open. -/
def Cond.holds? (f : Flags) : Cond → Option Bool
  | .o => f.overflow
  | .no => f.overflow.map not
  | .b => f.carry
  | .ae => f.carry.map not
  | .e => f.zero
  | .ne => f.zero.map not
  | .be => do return (← f.carry) || (← f.zero)
  | .a => do return !((← f.carry) || (← f.zero))
  | .s => f.sign
  | .ns => f.sign.map not
  | .p => f.parity
  | .np => f.parity.map not
  | .l => do return (← f.sign) != (← f.overflow)
  | .ge => do return (← f.sign) == (← f.overflow)
  | .le => do return (← f.zero) || ((← f.sign) != (← f.overflow))
  | .g => do return !(← f.zero) && ((← f.sign) == (← f.overflow))

namespace Alu

/-- The result of an operation; a comparison is a subtraction. -/
def eval : Alu → Word → Word → Word
  | .add, a, b => a + b
  | .or, a, b => a ||| b
  | .and, a, b => a &&& b
  | .sub, a, b | .cmp, a, b => a - b
  | .xor, a, b => a ^^^ b

/-- The flags after an operation: the carry is that of the unsigned readings, the overflow that of
the signed ones. -/
def flags : Alu → Word → Word → Flags
  | .add, a, b =>
    .ofResult (a + b) (some (decide (2 ^ 64 ≤ Word.toUnsigned a + Word.toUnsigned b)))
      (some (decide ((a + b).toInt ≠ a.toInt + b.toInt)))
  | .sub, a, b | .cmp, a, b =>
    .ofResult (a - b) (some (decide (Word.toUnsigned a < Word.toUnsigned b)))
      (some (decide ((a - b).toInt ≠ a.toInt - b.toInt)))
  | op, a, b => .ofResult (op.eval a b) (some false) (some false)

end Alu

/-! ### The state of a processor -/

/-- Registers, the low words of SSE registers, flags and memory. -/
structure Cpu where
  regs : Reg → Word
  xmms : Xmm → Word
  flags : Flags
  memory : Word → UInt8

/-- Why execution does not go on. -/
inductive Halt where
  /-- A division by zero, or with a quotient that does not fit. -/
  | divideError
  /-- A condition that looks at an open flag. -/
  | openFlag
  /-- Bytes that are no instruction, or one that is not executed here. -/
  | unknown
  deriving DecidableEq, Repr

/-- The number of bytes, little end first. -/
def ofBytes : List UInt8 → Nat
  | [] => 0
  | b :: rest => b.toNat + 256 * ofBytes rest

/-- A word shifted by the low six bits of a count; to the right, with its sign. -/
def shifted (left : Bool) (a : Word) (count : UInt8) : Word :=
  .ofBitVec (if left then a.toBitVec <<< (count.toNat % 64) else a.toBitVec.sshiftRight
    (count.toNat % 64))

namespace Cpu

/-- Writes a register. -/
@[simps -fullyApplied]
def setReg (s : Cpu) (r : Reg) (value : Word) :
    Cpu := { s with regs := Function.update s.regs r value }

/-- Writes the low word of an SSE register. -/
def setXmm (s : Cpu) (r : Xmm) (value : Word) :
    Cpu := { s with xmms := Function.update s.xmms r value }

@[simps -fullyApplied]
def setFlags (s : Cpu) (flags : Flags) : Cpu := { s with flags }

/-- The address that a memory operand names. -/
def address (s : Cpu) (m : Mem) : Word :=
  s.regs m.base + (match m.index with
      | some (index, scale) => s.regs index * Int64.ofNat scale.toNat
      | none => 0) +
    m.disp.toInt64

/-- Reads memory, zero-extended. -/
def read (s : Cpu) (width : Width) (address : Word) : Word :=
  Word.ofNat (ofBytes ((List.range width.bytes).map fun i => s.memory (address + Word.ofNat i)))

/-- Writes the low bytes of a word to memory. -/
def write (s : Cpu) (width : Width) (address value : Word) : Cpu :=
  { s with
    memory := fun a =>
      let i := Word.toUnsigned (a - address)
      if i < width.bytes then UInt8.ofNat (Word.toUnsigned value / 256 ^ i) else s.memory a }

/-- The operand in memory. -/
def load (s : Cpu) (width : Width) (m : Mem) : Word := s.read width (s.address m)

/-- An operation on a register; a comparison only sets the flags. -/
def alu (s : Cpu) (op : Alu) (dst : Reg) (b : Word) : Cpu :=
  let a := s.regs dst
  (if op = .cmp then s else s.setReg dst (op.eval a b)).setFlags (op.flags a b)

/-- An operation on memory. -/
def aluMem (s : Cpu) (op : Alu) (m : Mem) (b : Word) : Cpu :=
  let a := s.load .word m
  (if op = .cmp then s else s.write .word (s.address m) (op.eval a b)).setFlags (op.flags a b)

/-- A product.  Carry and overflow say that it does not fit; the other flags are left open. -/
def multiply (s : Cpu) (dst : Reg) (a b : Word) : Cpu :=
  let wraps := some (decide ((a * b).toInt ≠ a.toInt * b.toInt))
  (s.setReg dst (a * b)).setFlags { Flags.allOpen with carry := wraps, overflow := wraps }

/-- A shift.  A shift by nothing leaves the flags alone; the overflow is left open unless the shift
is by one. -/
def shift (s : Cpu) (left : Bool) (dst : Reg) (count : UInt8) : Cpu :=
  let n := count.toNat % 64
  let a := (s.regs dst).toBitVec
  let result := shifted left (s.regs dst) count
  let carry := if left then a.getLsbD (64 - n) else a.getLsbD (n - 1)
  let overflow := if n = 1 then some (if left then decide (result < 0) != carry else false)
    else none
  (s.setReg dst result).setFlags (if n = 0 then s.flags else .ofResult result (some carry) overflow)

@[simp]
lemma regs_shift (s : Cpu) (left : Bool) (dst : Reg) (count : UInt8) :
    (s.shift left dst count).regs = Function.update s.regs dst (shifted left (s.regs dst) count) :=
    rfl

/-- The signed number in `rdx` and `rax`. -/
def dividend (s : Cpu) : Int := (s.regs .rdx).toInt * 2 ^ 64 + Word.toUnsigned (s.regs .rax)

/-- Division of `rdx` and `rax`; quotient and remainder go to `rax` and `rdx`. -/
def divide (s : Cpu) (divisor : Word) : Except Halt Cpu :=
  let quotient := s.dividend.tdiv divisor.toInt
  if divisor = 0 ∨ quotient < -2 ^ 63 ∨ 2 ^ 63 ≤ quotient then .error .divideError
  else
    .ok (((s.setReg .rax (Int64.ofInt quotient)).setReg .rdx
      (Int64.ofInt (s.dividend.tmod divisor.toInt))).setFlags .allOpen)

/-- Whether a condition holds. -/
def test (s : Cpu) (cond : Cond) :
    Except Halt Bool := (cond.holds? s.flags).elim (.error .openFlag) .ok

end Cpu

/-! ### Instructions -/

/-- A byte in place of the low byte of a word. -/
def withLowByte (w : Word) (byte : UInt8) :
    Word := ((w.toUInt64 &&& ~~~0xFF) ||| byte.toUInt64).toInt64

/-- Executes an instruction that passes control on.  Of the others, calls, returns and arithmetic on
doubles are not executed. -/
def Instr.exec (s : Cpu) : Instr → Except Halt Cpu
  | .movRR dst src => .ok (s.setReg dst (s.regs src))
  | .clear dst => .ok ((s.setReg dst 0).setFlags (.ofResult 0 (some false) (some false)))
  | .movImm32 dst imm => .ok (s.setReg dst imm.toUInt64.toInt64)
  | .movSigned dst imm => .ok (s.setReg dst imm.toInt64)
  | .movImm64 dst imm => .ok (s.setReg dst imm)
  | .movRM dst mem => .ok (s.setReg dst (s.load .word mem))
  | .movMR mem src => .ok (s.write .word (s.address mem) (s.regs src))
  | .movMI mem imm => .ok (s.write .word (s.address mem) imm.toInt64)
  | .movzxByte dst mem => .ok (s.setReg dst (s.load .byte mem))
  | .movRM32 dst mem => .ok (s.setReg dst (s.load .char mem))
  | .movMRByte mem src => .ok (s.write .byte (s.address mem) (s.regs src))
  | .movMR32 mem src => .ok (s.write .char (s.address mem) (s.regs src))
  | .lea dst mem => .ok (s.setReg dst (s.address mem))
  | .movzxReg dst src => .ok (s.setReg dst (Word.lowByte (s.regs src)).toUInt64.toInt64)
  | .aluRR op dst src => .ok (s.alu op dst (s.regs src))
  | .aluRI op dst imm => .ok (s.alu op dst imm.toInt64)
  | .aluRM op dst mem => .ok (s.alu op dst (s.load .word mem))
  | .aluMI op mem imm => .ok (s.aluMem op mem imm.toInt64)
  | .imulRR dst src => .ok (s.multiply dst (s.regs dst) (s.regs src))
  | .imulRM dst mem => .ok (s.multiply dst (s.regs dst) (s.load .word mem))
  | .imulRRI dst src imm => .ok (s.multiply dst (s.regs src) imm.toInt64)
  | .idiv src => s.divide (s.regs src)
  | .cqo => .ok (s.setReg .rdx (if s.regs .rax < 0 then -1 else 0))
  | .neg dst => .ok ((s.setReg dst (-s.regs dst)).setFlags (Alu.flags .sub 0 (s.regs dst)))
  | .not dst => .ok (s.setReg dst (~~~s.regs dst))
  | .shlImm dst count => .ok (s.shift true dst count)
  | .sarImm dst count => .ok (s.shift false dst count)
  | .shlCl dst => .ok (s.shift true dst (Word.lowByte (s.regs .rcx)))
  | .sarCl dst => .ok (s.shift false dst (Word.lowByte (s.regs .rcx)))
  | .test a b => .ok (s.setFlags (Alu.flags .and (s.regs a) (s.regs b)))
  | .setcc cond dst => do
    let holds ← s.test cond
    return s.setReg dst (withLowByte (s.regs dst) (if holds then 1 else 0))
  | .push reg =>
    let top := s.regs .rsp - 8
    .ok ((s.write .word top (s.regs reg)).setReg .rsp top)
  | .pop reg =>
    let top := s.regs .rsp
    .ok ((s.setReg .rsp (top + 8)).setReg reg (s.read .word top))
  | .movsdRR dst src => .ok (s.setXmm dst (s.xmms src))
  | .movsdRM dst mem => .ok (s.setXmm dst (s.load .word mem))
  | .movsdMR mem src => .ok (s.write .word (s.address mem) (s.xmms src))
  | .movqToXmm dst src => .ok (s.setXmm dst (s.regs src))
  | .movqFromXmm dst src => .ok (s.setReg dst (s.xmms src))
  | _ => .error .unknown

/-- Two states differ at most in some registers and in the flags. -/
abbrev Cpu.Spares (spared : List Reg) :
    Cpu → Cpu → Prop := Writes Cpu.regs Cpu.xmms Cpu.memory spared []

namespace Cpu.Spares

variable {s t : Cpu} {spared : List Reg}

lemma refl (s : Cpu) : Spares spared s s := Writes.refl spared s

variable (spares : Spares spared s t)
include spares

lemma setReg {r : Reg} (mem : r ∈ spared) (value : Word) : Spares spared s (t.setReg r value) :=
  ⟨fun r' other => (Function.update_of_ne (fun same => other (by rwa [same])) _ _).trans
    (spares.regs r' other), spares.floats, spares.memory⟩

lemma setFlags (flags : Flags) : Spares spared s (t.setFlags flags) :=
  ⟨spares.regs, spares.floats, spares.memory⟩

lemma alu (op : Alu) {dst : Reg} (mem : dst ∈ spared) (b : Word) :
    Spares spared s (t.alu op dst b) := by
  unfold Cpu.alu
  split
  · exact spares.setFlags _
  · exact (spares.setReg mem _).setFlags _

end Cpu.Spares

/-! ### Code -/

/-- An offset in the code, and the state of the processor there. -/
abbrev Point := Int × Cpu

/-- The instruction at an offset, and the offset after it. -/
def fetch (code : List UInt8) (offset : Int) : Option (Instr × Int) :=
  if offset < 0 then none
  else (decode (code.drop offset.toNat)).map fun (i, rest) => (i, (code.length : Int) - rest.length)

/-- Executes the instruction at an offset. -/
def step (code : List UInt8) (p : Point) : Except Halt Point :=
  match fetch code p.1 with
  | none => .error .unknown
  | some (.jmp disp, next) => .ok (next + disp.toInt, p.2)
  | some (.jcc cond disp, next) =>
    do return (if ← p.2.test cond then next + disp.toInt else next, p.2)
  | some (i, next) => do return (next, ← i.exec p.2)

/-- Execution leads from one point to another. -/
def Runs (code : List UInt8) : Point → Point → Prop :=
  Relation.ReflTransGen fun p q => step code p = .ok q

lemma encodeAll_cons (i : Instr) (rest : List Instr) :
    encodeAll (i :: rest) = i.encode ++ encodeAll rest := rfl

lemma codeLength_cons (i : Instr) (rest : List Instr) :
    codeLength (i :: rest) = i.encode.length + codeLength rest :=
  List.length_append

variable {code : List UInt8} {offset : Nat}

/-- An instruction is read where its bytes stand. -/
lemma fetch_of_stand (encodable : i.Encodable) (stand : Stand code offset i.encode) :
    fetch code offset = some (i, ((offset + i.encode.length : Nat) : Int)) := by
  obtain ⟨rest, h⟩ := stand
  have nonneg : ¬ (offset : Int) < 0 := by omega
  have length := congrArg List.length h
  rw [List.length_append, List.length_drop] at length
  have nonempty : 0 < i.encode.length := List.length_pos_iff.2 (encode_ne_nil encodable)
  rw [fetch, if_neg nonneg, Int.toNat_natCast, ← h, decode_encode encodable rest]
  simp only [Option.map_some, Option.some.injEq, Prod.mk.injEq, true_and]
  omega

namespace Runs

variable {p q r : Point} {s t : Cpu} {i : Instr} {disp : Int32}

/-- One instruction that passes control on. -/
lemma exec (encodable : i.Encodable) (stand : Stand code offset i.encode) (run : i.exec s = .ok t) :
    Runs code (offset, s) ((offset + i.encode.length : Nat), t) := by
  refine Relation.ReflTransGen.single ?_
  have fetched := fetch_of_stand encodable stand
  cases i with
  | jmp disp | jcc cond disp => cases run
  | _ => rw [step, fetched]; dsimp only; rw [run]; rfl

/-- A jump. -/
lemma jmp (stand : Stand code offset (Instr.jmp disp).encode) :
    Runs code (offset, s) ((offset + (Instr.jmp disp).encode.length : Nat) + disp.toInt, s) := by
  refine Relation.ReflTransGen.single ?_
  rw [step, fetch_of_stand (encodable_of_none rfl rfl rfl) stand]

lemma jcc {cond : Cond} {holds : Bool} (stand : Stand code offset (Instr.jcc cond disp).encode)
    (test : cond.holds? s.flags = some holds) :
    Runs code (offset, s)
        (if holds then (offset + (Instr.jcc cond disp).encode.length : Nat) + disp.toInt
          else (offset + (Instr.jcc cond disp).encode.length : Nat), s) := by
  refine Relation.ReflTransGen.single ?_
  have tested : s.test cond = .ok holds := by rw [Cpu.test, test]; rfl
  rw [step, fetch_of_stand (encodable_of_none rfl rfl rfl) stand]
  dsimp only
  rw [tested]
  rfl

lemma block {instrs : List Instr} (encodable : ∀ i ∈ instrs, i.Encodable)
    (stand : Stand code offset (encodeAll instrs)) (run : execAll Instr.exec s instrs = .ok t) :
    Runs code (offset, s) ((offset + codeLength instrs : Nat), t) := by
  induction instrs generalizing offset s with
  | nil =>
    obtain rfl : s = t := Except.ok.inj run
    exact .refl
  | cons i rest ih =>
    rw [encodeAll_cons, Stand.append] at stand
    cases first : i.exec s with
    | error e =>
      rw [execAll, List.foldlM_cons, first] at run
      cases run
    | ok u =>
      rw [execAll_cons first] at run
      have here := exec (encodable i List.mem_cons_self) stand.1 first
      have later := ih (fun i mem => encodable i (List.mem_cons_of_mem _ mem)) stand.2 run
      rw [codeLength_cons, ← Nat.add_assoc]
      exact here.trans later

end Runs

end StackMachine.X64
