import StackMachine.Proofs.A64.Format
import StackMachine.Proofs.Native.Machine
import StackMachine.Proofs.X64.Machine

/-!
# Execution of AArch64 instructions

A processor has general registers, the low words of the float registers, four flags, and memory of
bytes.  The register of number 31 is the stack pointer where an instruction adds an immediate and
where it addresses memory; elsewhere it reads as zero and writing it does nothing.

Instructions are executed as the words that encode them (`Instr.exec`, `execAll`), and code as
bytes: `step` reads the word at an offset, which must be a multiple of 4, and executes it.  A branch
adds its displacement to its own offset, so code can stand anywhere.  Instructions in a row are
executed one after another (`Runs.block`).
-/

namespace StackMachine.A64

open Native

variable {s t : Cpu} {i : Instr}

/-! ### Arithmetic -/

/-- The flags. -/
structure Flags where
  negative : Bool
  zero : Bool
  carry : Bool
  overflow : Bool
  deriving DecidableEq, Repr

/-- Whether a condition holds. -/
def Cond.holds (f : Flags) : Cond → Bool
  | .eq => f.zero
  | .ne => !f.zero
  | .cs => f.carry
  | .cc => !f.carry
  | .mi => f.negative
  | .pl => !f.negative
  | .vs => f.overflow
  | .vc => !f.overflow
  | .hi => f.carry && !f.zero
  | .ls => !(f.carry && !f.zero)
  | .ge => f.negative == f.overflow
  | .lt => f.negative != f.overflow
  | .gt => !f.zero && f.negative == f.overflow
  | .le => !(!f.zero && f.negative == f.overflow)
  | .al => true

/-- The opposite condition holds exactly when the condition does not. -/
lemma Cond.holds_invert {c : Cond} (other : c ≠ .al) (f : Flags) :
    c.invert.holds f = !c.holds f := by
  cases c <;> simp [Cond.invert, Cond.holds, bne] at *

/-- A sum with a carry, and its flags: the carry is that of the unsigned readings, the overflow that
of the signed ones. -/
def addWithCarry (a b : Word) (carry : Bool) : Word × Flags :=
  let result := a + b + Word.ofBool carry
  (result,
    { negative := decide (result < 0)
      zero := result == 0
      carry := decide (Word.toUnsigned result ≠ Word.toUnsigned a + Word.toUnsigned b + carry.toNat)
      overflow := decide (result.toInt ≠ a.toInt + b.toInt + carry.toNat) })

/-- A sum, or a difference: the sum with the complement and a carry. -/
def addSub (subtract : Bool) (a b : Word) : Word × Flags :=
  if subtract then addWithCarry a (~~~b) true else addWithCarry a b false

lemma addSub_fst (subtract : Bool) (a b : Word) : (addSub subtract a b).1 = if subtract then a - b
    else a + b := by
  cases subtract with
  | true =>
    show a + ~~~b + 1 = a - b
    rw [Int64.not_eq_neg_add]
    grind
  | false => exact Int64.add_zero _

/-- The value of a bitwise operation. -/
def Logic.eval : Logic → Word → Word → Word
  | .and, a, b => a &&& b
  | .orr, a, b => a ||| b
  | .eor, a, b => a ^^^ b

/-- A word shifted by a count below 64; to the right, with its sign. -/
def shifted (left : Bool) (a : Word) (count : Nat) : Word :=
  .ofBitVec (if left then a.toBitVec <<< count else a.toBitVec.sshiftRight count)

/-- The word after a wide move of an immediate to one of the four halves of a word. -/
def WideMove.eval (kind : WideMove) (a : Word) (imm half : Nat) : Word :=
  let placed := BitVec.ofNat 64 imm <<< (16 * half)
  .ofBitVec (match kind with
      | .ones => ~~~placed
      | .zeros => placed
      | .keep => (a.toBitVec &&& ~~~(0xFFFF#64 <<< (16 * half))) ||| placed)

/-- A field of bits moved inside a word, with zeros or its sign above it: the bits from `rotate` to
`top` go to the low end; if `top` is below `rotate`, the bits up to `top` go to the bits from `64 -
rotate` on. -/
def moveField (signed : Bool) (a : Word) (rotate top : Nat) : Word :=
  let extend (width : Nat) (x : BitVec 64) : BitVec 64 :=
    if signed then (x.setWidth width).signExtend 64 else (x.setWidth width).setWidth 64
  .ofBitVec (if rotate ≤ top then extend (top - rotate + 1) (a.toBitVec >>> rotate)
      else extend (top + 1) a.toBitVec <<< (64 - rotate))

/-! ### The state of a processor -/

/-- Registers, the low words of float registers, flags and memory. -/
structure Cpu where
  /-- General registers; that of number 31 is the stack pointer. -/
  regs : Reg → Word
  doubles : DReg → Word
  flags : Flags
  memory : ByteMemory

namespace Cpu

/-- Writes a register. -/
@[simps -fullyApplied]
def setReg (s : Cpu) (r : Reg) (value : Word) :
    Cpu := { s with regs := Function.update s.regs r value }

/-- Writes the low word of a float register. -/
@[simps -fullyApplied]
def setDouble (s : Cpu) (r : DReg) (value : Word) :
    Cpu := { s with doubles := Function.update s.doubles r value }

@[simps -fullyApplied]
def setFlags (s : Cpu) (flags : Flags) : Cpu := { s with flags }

/-- Writes a word to memory. -/
@[simps -fullyApplied]
def store (s : Cpu) (address value : Word) :
    Cpu := { s with memory := s.memory.writeWord address value }

/-- The value of a register where number 31 is zero. -/
def get (s : Cpu) (r : Reg) : Word := if r = Reg.zr then 0 else s.regs r

/-- Writes a register where number 31 is zero. -/
def put (s : Cpu) (r : Reg) (value : Word) : Cpu := if r = Reg.zr then s else s.setReg r value

variable {s t u : Cpu} {r : Reg}

@[simp]
lemma get_zr (s : Cpu) : s.get Reg.zr = 0 := if_pos rfl

lemma get_of_ne (ne : r ≠ Reg.zr) : s.get r = s.regs r := if_neg ne

lemma put_of_ne (ne : r ≠ Reg.zr) (value : Word) : s.put r value = s.setReg r value := if_neg ne

def loadPair (s : Cpu) (rt1 rt2 : Reg) (address : Word) : Cpu :=
  (s.put rt1 (s.memory.readWord address)).put rt2 (s.memory.readWord (address + 8))

/-- Loads a pair of float registers. -/
def loadPairD (s : Cpu) (rt1 rt2 : DReg) (address : Word) : Cpu :=
  (s.setDouble rt1 (s.memory.readWord address)).setDouble rt2 (s.memory.readWord (address + 8))

/-- Stores two words in a row. -/
def storePair (s : Cpu) (address first second : Word) :
    Cpu := (s.store address first).store (address + 8) second

end Cpu

/-! ### Instructions -/

/-- Executes an instruction that passes control on; branches, calls and returns do not. -/
def Form.exec (s : Cpu) : Form → Option Cpu
  | .addSubImm subtract setFlags rd rn imm =>
    let sum := addSub subtract (s.regs rn) (Word.ofNat imm)
    some (if setFlags then (s.put rd sum.1).setFlags sum.2 else s.setReg rd sum.1)
  | .addSubReg subtract setFlags rd rn rm count =>
    let sum := addSub subtract (s.get rn) (shifted true (s.get rm) count)
    some (if setFlags then (s.put rd sum.1).setFlags sum.2 else s.put rd sum.1)
  | .logical op inverted rd rn rm count =>
    let operand := shifted true (s.get rm) count
    some (s.put rd (op.eval (s.get rn) (if inverted then ~~~operand else operand)))
  | .moveWide kind rd imm half => some (s.put rd (kind.eval (s.get rd) imm half))
  | .bitfield signed rd rn rotate top => some (s.put rd (moveField signed (s.get rn) rotate top))
  | .divide rd rn rm => some (s.put rd (Int64.ofInt ((s.get rn).toInt.tdiv (s.get rm).toInt)))
  | .shift left rd rn rm =>
    some (s.put rd (shifted left (s.get rn) (Word.toUnsigned (s.get rm) % 64)))
  | .multiply subtract rd rn rm ra =>
    let product := s.get rn * s.get rm
    some (s.put rd (if subtract then s.get ra - product else s.get ra + product))
  | .select increment rd rn rm cond =>
    let other := if increment then s.get rm + 1 else s.get rm
    some (s.put rd (if cond.holds s.flags then s.get rn else other))
  | .access load rt rn offset =>
    let address := s.regs rn + Word.ofNat offset
    some (if load then s.put rt (s.memory.readWord address) else s.store address (s.get rt))
  | .pair load indexing rt1 rt2 rn offset =>
    let moved := s.regs rn + Int64.ofInt offset
    let address := if indexing = .after then s.regs rn else moved
    let accessed := if load then s.loadPair rt1 rt2 address else s.storePair address (s.get rt1)
      (s.get rt2)
    some (if indexing = .offset then accessed else accessed.setReg rn moved)
  | .pairD load rt1 rt2 rn offset =>
    let address := s.regs rn + Int64.ofInt offset
    some (if load then s.loadPairD rt1 rt2 address else s.storePair address (s.doubles rt1)
      (s.doubles rt2))
  | .branch _ | .branchCond _ _ | .branchZero _ _ _ | .call _ | .ret _ => none

/-- Executes the word of an instruction. -/
def Instr.exec (s : Cpu) (i : Instr) : Option Cpu := (decode i.encode).bind fun form => form.exec s

lemma Instr.exec_eq {form : Form} (stands : i.form? = some form) : i.exec s = form.exec s := by
  rw [Instr.exec, decode_encode stands, Option.bind_some]

/-- Two states differ at most in some registers and in the flags. -/
abbrev Cpu.Spares (spared : List Reg) :
    Cpu → Cpu → Prop := Writes Cpu.regs Cpu.doubles Cpu.memory spared []

namespace Cpu.Spares

variable {s t : Cpu} {spared : List Reg} {r : Reg}

lemma refl (s : Cpu) : Spares spared s s := Writes.refl spared s

variable (spares : Spares spared s t)
include spares

lemma setReg (mem : r ∈ spared) (value : Word) : Spares spared s (t.setReg r value) :=
  ⟨fun r' other => (Function.update_of_ne (fun same => other (by rwa [same])) _ _).trans
    (spares.regs r' other), spares.floats, spares.memory⟩

lemma setFlags (flags : Flags) : Spares spared s (t.setFlags flags) :=
  ⟨spares.regs, spares.floats, spares.memory⟩

/-- A register that is not among the spared ones. -/
lemma get (other : r ∉ spared) : t.get r = s.get r := by
  rw [Cpu.get, Cpu.get, spares.regs r other]

end Cpu.Spares

/-! ### Code -/

/-- An offset in the code, and the state of the processor there. -/
abbrev Point := Int × Cpu

/-- The instruction at an offset. -/
def fetch (code : List UInt8) (offset : Int) : Option Form :=
  if offset < 0 ∨ offset % 4 ≠ 0 then none
  else
    match code.drop offset.toNat with
    | a :: b :: c :: d :: _ => decode (word32 a b c d)
    | _ => none

/-- Executes the instruction at an offset. -/
def step (code : List UInt8) (p : Point) : Option Point :=
  match fetch code p.1 with
  | none => none
  | some (.branch disp) => some (p.1 + disp, p.2)
  | some (.branchCond cond disp) => some (if cond.holds p.2.flags then p.1 + disp else p.1 + 4, p.2)
  | some (.branchZero nonzero rt disp) =>
    some (if decide (p.2.get rt = 0) != nonzero then p.1 + disp else p.1 + 4, p.2)
  | some form => do return (p.1 + 4, ← form.exec p.2)

/-- Execution leads from one point to another. -/
def Runs (code : List UInt8) : Point → Point → Prop :=
  Relation.ReflTransGen fun p q => step code p = some q

/-- The bytes of instructions in a row. -/
def encodeAll (instrs : List Instr) : List UInt8 := instrs.flatMap Instr.bytes

lemma length_encodeAll (instrs : List Instr) : (encodeAll instrs).length = 4 * instrs.length := by
  induction instrs with
  | nil => rfl
  | cons i rest ih =>
    rw [encodeAll, List.flatMap_cons, List.length_append, ← encodeAll, ih, List.length_cons]
    show 4 + _ = _
    omega

variable {code : List UInt8} {offset : Nat}

/-- An instruction is read where the bytes of its word stand. -/
lemma fetch_of_stand {word : UInt32} (aligned : 4 ∣ offset)
    (stand : Stand code offset (bytes32 word)) :
    fetch code offset = decode word := by
  obtain ⟨rest, split⟩ := stand
  have inside : ¬((offset : Int) < 0 ∨ (offset : Int) % 4 ≠ 0) := by omega
  rw [fetch, if_neg inside, Int.toNat_natCast, ← split]
  show decode (word32 _ _ _ _) = decode word
  rw [word32_bytes32]

namespace Runs

variable {p q r : Point} {s t : Cpu} {i : Instr} {word : UInt32} {disp : Int}

variable (aligned : 4 ∣ offset)
include aligned

/-- One instruction that passes control on. -/
lemma exec (stand : Stand code offset i.bytes) (run : i.exec s = some t) :
    Runs code (offset, s) ((offset + 4 : Nat), t) := by
  refine Relation.ReflTransGen.single ?_
  have fetched := fetch_of_stand aligned stand
  obtain ⟨form, read, run⟩ := Option.bind_eq_some_iff.1 run
  rw [step, fetched, read]
  cases form with
  | branch | branchCond | branchZero | call | ret => cases run
  | _ =>
    dsimp only
    rw [run]
    rfl

lemma branchCond {cond : Cond} (stand : Stand code offset (bytes32 word))
    (read : decode word = some (.branchCond cond disp)) :
    Runs code (offset, s)
    (if cond.holds s.flags then (offset : Int) + disp else (offset + 4 : Nat), s) := by
  refine Relation.ReflTransGen.single ?_
  rw [step, fetch_of_stand aligned stand, read]
  rfl

lemma branchZero {nonzero : Bool} {rt : Reg} (stand : Stand code offset (bytes32 word))
    (read : decode word = some (.branchZero nonzero rt disp)) :
    Runs code (offset, s)
      (if decide (s.get rt = 0) != nonzero then (offset : Int) + disp else (offset + 4 : Nat),
        s) := by
  refine Relation.ReflTransGen.single ?_
  rw [step, fetch_of_stand aligned stand, read]
  rfl

lemma block {instrs : List Instr} (stand : Stand code offset (encodeAll instrs))
    (run : execAll Instr.exec s instrs = some t) :
    Runs code (offset, s) ((offset + 4 * instrs.length : Nat), t) := by
  induction instrs generalizing offset s with
  | nil =>
    obtain rfl : s = t := Option.some.inj run
    exact .refl
  | cons i rest ih =>
    rw [encodeAll, List.flatMap_cons, Stand.append] at stand
    obtain ⟨u, first, later⟩ := Option.bind_eq_some_iff.1 run
    have here := exec aligned stand.1 first
    have there := ih (Nat.dvd_add aligned (Nat.dvd_refl 4)) stand.2 later
    rw [List.length_cons, Nat.mul_add, Nat.add_comm _ (4 * 1), ← Nat.add_assoc]
    exact here.trans there

end Runs

end StackMachine.A64
