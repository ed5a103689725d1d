import StackMachine.Proofs.Native.ElementStores
import StackMachine.Proofs.Native.Entry
import StackMachine.Proofs.X64.Selection

/-!
# Stores to array elements on x86-64

A compiled store to an element writes the low bytes of its value to the heap from the pointer of the
element on, and no other byte (`exists_writes_of_storeElement`).  So it does what the interpreter
does as long as it writes at the width of the element.  It does not for a value in a float register,
of which it writes the whole word.

The machine code of the operation that makes the store is executed as well: of memory it changes
just the bytes of the access (`Overwrites`).
-/

namespace StackMachine.X64

open Native

/-! ### Stores in machine code -/

/-- Two states differ in the bytes of an access, which are the low bytes of a value in the second
one, and besides at most in scratch registers and in the flags. -/
structure Overwrites (abi : Abi) (width : Width) (address value : Word) (s t : Cpu) : Prop where
  allocated : ∀ r ∈ abi.intRegs, t.regs r = s.regs r
  floats : t.xmms = s.xmms
  stackPointer : t.regs .rsp = s.regs .rsp
  framePointer : t.regs .rbp = s.regs .rbp
  memory : ∀ a, t.memory a =
    if Word.toUnsigned (a - address) < width.bytes then Word.byte value
    (Word.toUnsigned (a - address)) else s.memory a

/-- The value of a pending value. -/
def Cpu.pending (s : Cpu) : Pending Reg Xmm → Word
  | .floatReg lease => s.xmms lease.reg
  | u => s.src (Gen.srcOf u)

variable {abi : Abi} {addresses : Addresses} {base : Reg} {u : Pending Reg Xmm} {width : Width}

lemma ofNat_div_eq_byte (w : Word) {i : Nat} (lt : i < 8) :
    UInt8.ofNat (Word.toUnsigned w / 256 ^ i) = Word.byte w i := by
  have amount : (UInt64.ofNat (8 * i)).toNat % 64 = 8 * i := by
    rw [UInt64.toNat_ofNat']
    omega
  have power : 256 ^ i = 2 ^ (8 * i) := by rw [Nat.pow_mul]
  apply UInt8.toNat_inj.1
  rw [Word.byte, UInt64.toNat_toUInt8, UInt64.toNat_shiftRight, amount, Nat.shiftRight_eq_div_pow,
    ← power, UInt8.toNat_ofNat']
  rfl

/-- A write after code that leaves memory alone. -/
lemma Overwrites.of_keeps {s k : Cpu} (keeps : Keeps abi [] s k) (width : Width)
    (address value : Word) :
    Overwrites abi width address value s (k.write width address value) where
  allocated r mem := keeps.allocated r mem List.not_mem_nil
  floats := keeps.floats
  stackPointer := keeps.stackPointer
  framePointer := keeps.framePointer
  memory a := by
    show (if _ then _ else k.memory a) = _
    rw [keeps.memory]
    split
    · next inAccess =>
      exact ofNat_div_eq_byte value (Nat.lt_of_lt_of_le inAccess (Block.bytes_le width))
    · rfl

lemma address_base (s : Cpu) (base : Reg) : s.address (mem base 0) = s.regs base := by
  show s.regs base + 0 + 0 = _
  rw [Int64.add_zero, Int64.add_zero]

def writeInstr (m : Mem) (value : Reg) : Width → Instr
  | .byte => .movMRByte m value
  | .char => .movMR32 m value
  | .word => .movMR m value

/-- A constant of 32 bits is written by an instruction of its own, every other operand from a
register. -/
lemma storeMem_cases (width : Width) (m : Mem) (src : Src Reg) :
    storeMem width m src = (srcReg src).1 ++ [writeInstr m (srcReg src).2 width] ∨
      ∃ value, width = .word ∧ src = .imm value ∧ Word.fitsInt32 value ∧
        storeMem width m src = [.movMI m value.toInt32] := by
  cases src with
  | imm value =>
    cases width with
    | word =>
      by_cases fits : Word.fitsInt32 value
      · exact .inr ⟨value, rfl, rfl, fits, if_pos fits⟩
      · exact .inl (if_neg fits)
    | byte | char => exact .inl rfl
  | reg r | slot index => exact .inl (by cases width <;> rfl)

lemma encodable_storeMem (width : Width) (base : Reg) (src : Src Reg) :
    ∀ i ∈ storeMem width (mem base 0) src, i.Encodable := by
  rcases storeMem_cases width (mem base 0) src with through | ⟨value, -, -, -, single⟩
  · intro i inCode
    rw [through] at inCode
    rcases List.mem_append.1 inCode with inLoad | isWrite
    · exact encodable_srcReg src i inLoad
    · rw [List.mem_singleton.1 isWrite]
      cases width <;> exact encodable_of_none rfl rfl rfl
  · rw [single]
    exact List.forall_mem_singleton.2 (encodable_of_none rfl rfl rfl)

lemma Executes.storeFloat (s : Cpu) (base : Reg) {src : Xmm} (encodable : src.num < 16) :
    Executes abi addresses (.storeFloat base 0 src) s none
      (Overwrites abi .word (s.regs base) (s.xmms src) s) := by
  have run : execAll Instr.exec s [.movsdMR (mem base 0) src] =
    .ok (s.write .word (s.regs base) (s.xmms src)) := by
    rw [← address_base s base]
    rfl
  refine .of_plain (fun _ => rfl) ?_ run (.of_keeps (Keeps.of_spares (by simp) (.refl s)) _ _ _)
  simp [Instr.Encodable, Instr.mem?, Instr.xmms, Instr.byteRegs, Mem.Valid, mem, encodable]

section

variable (s : Cpu) (width : Width) (allocated : base ∈ abi.intRegs)
include allocated

/-- An operand is written where a register points. -/
lemma exec_storeMem (src : Src Reg) :
    ∃ k, Keeps abi [] s k ∧ execAll Instr.exec s (storeMem width (mem base 0) src) =
      .ok (k.write width (s.regs base) (s.src src)) := by
  rcases storeMem_cases width (mem base 0) src with through | ⟨value, rfl, rfl, fits, single⟩
  · obtain ⟨k, load, value, spares⟩ := exec_srcReg s src
    have away := Abi.ne_of_mem_intRegs allocated
    have pointer : k.regs base = s.regs base := spares.regs base (by simp [away])
    refine ⟨k, Keeps.of_spares (by simp) (spares.mono (by simp [scratchRegs])), ?_⟩
    rw [through, execAll_append_of_eq load, ← value, ← pointer, ← address_base k base]
    cases width <;> rfl
  · refine ⟨s, Keeps.of_spares (by simp) (.refl s), ?_⟩
    rw [single, ← address_base s base]
    exact congrArg (fun w => Except.ok (s.write .word _ w)) (toInt64_toInt32 fits)

lemma Executes.store (src : Src Reg) :
    Executes abi addresses (.store width base 0 src) s none
      (Overwrites abi width (s.regs base) (s.src src) s) := by
  obtain ⟨k, keeps, run⟩ := exec_storeMem s width allocated src
  exact .of_plain (fun _ => rfl) (encodable_storeMem width base src) run (.of_keeps keeps _ _ _)

/-- The machine code of a store overwrites the bytes of its access. -/
lemma Executes.storeOp (encodable : ∀ r, u.float? = some r → r.num < 16) :
    Executes abi addresses (Native.storeOp width base u) s none
      (Overwrites abi (storedWidth width (some u)) (s.regs base) (s.pending u) s) := by
  cases u with
  | floatReg lease => exact .storeFloat s base (encodable lease.reg rfl)
  | imm value => exact .store s width allocated (.imm value)
  | reg lease => exact .store s width allocated (.reg lease.reg)
  | slot index | floatSlot index => exact .store s width allocated (.slot (localSlot index))
  | floatImm value => exact .store s width allocated (.imm value.toWord)

end

/-! ### Compiled stores -/

lemma mem_intRegs_of_mem_registers {r : Reg} (drawn : r ∈ (backend abi addresses).ints.registers) :
    r ∈ abi.intRegs := by
  simp only [backend, RegisterPool.new, RegisterPool.registers, List.mem_append,
    List.not_mem_nil] at drawn
  rw [Abi.intRegs, List.mem_append]
  tauto

lemma num_lt_of_mem_registers {r : Xmm} (drawn : r ∈ (backend abi addresses).floats.registers) :
    r.num < 16 := by
  revert r
  show ∀ r ∈ (backend .sysV).floats.registers, r.num < 16
  decide

variable {x : Execution Reg Xmm} {kind : ElemKind} {extents indices below : List Word}
  {array value pointer : Word} {s t : GenState Reg Xmm} {c : Config Reg Xmm} {v : Ideal}
  {place : Nat} {b : Block}

/-- **A compiled store writes at the width that the form of its value asks for.**  The array has
been allocated with at least one extent, its block has room for its elements, and its indices lead
to an element.  Then the code of the store is run through without a fault, and leaves everything but
the heap as it was:

* it writes the low bytes of the value from the pointer of the element on, and no other byte.  It
  writes as many as the element has, but for a value in a float register, of which it writes all
  eight; the block must then go on so far;
* the interpreter writes as many bytes of the value as the element has, and leaves the same heap
  unless the widths differ;
* the last operation of the code makes the store, and its machine code overwrites just these bytes
  of memory. -/
theorem exists_writes_of_storeElement (abi : Abi) (addresses : Addresses)
    (site : x.StoreSite kind extents indices array value below s t c v)
    (built : v.machine.heap.Built kind extents array place b)
    (found : v.machine.heap.element kind array indices = .ok pointer)
    (ints : s.ints.registers ⊆ (backend abi addresses).ints.registers)
    (floats : s.floats.registers ⊆ (backend abi addresses).floats.registers) :
    ∃ start ∈ Heap.payloadBytes kind extents place, v.machine.heap.locate? pointer = some start ∧
      (∃ n c', x.Steps n c c' ∧ c'.place = t.ops.size ∧
        c'.state.machine = { v.machine with heap := c'.state.machine.heap } ∧
        (site.stored = kind.access ∨ start.offset + site.stored.bytes ≤ 8 * b.payload.size →
          v.machine.heap.Writes c'.state.machine.heap start site.stored.bytes value) ∧
        ∀ method σ, σ.machine.heap = v.machine.heap → σ.context.stack.Holds v.stack →
          ∃ τ, Interpreter.perform method (.storeElement kind extents.length) σ = .ok () τ ∧
            v.machine.heap.Writes τ.machine.heap start kind.width value ∧
            (site.stored = kind.access → c'.state.machine.heap = τ.machine.heap)) ∧
      ∃ before base u, t.ops = Array.push before (storeOp kind.access base u) ∧
        ∀ cpu, Executes abi addresses (storeOp kind.access base u) cpu none
          (Overwrites abi site.stored (cpu.regs base) (cpu.pending u) cpu) := by
  obtain ⟨start, inPayload, located, room, writes⟩ :=
    exists_start_of_element built site.nonempty site.same found
  obtain ⟨⟨before, base, u, ops, stored, inInts, drawn⟩, n, c', steps, at_end, machine⟩ :=
    site.exists_steps built found
  have heap : c'.state.machine.heap = v.machine.heap.write pointer site.stored value := by
    rw [machine]
  refine ⟨start, inPayload, located,
    ⟨n, c', steps, at_end, by rw [heap]; exact machine, fun fits => ?_, ?_⟩, before, base, u, ops,
      fun cpu => ?_⟩
  · rw [heap]
    apply writes
    rcases fits with same | fits
    · rwa [same, ElemKind.bytes_access]
    · exact fits
  · intro method σ sameHeap holds
    rw [site.stack] at holds
    obtain ⟨τ, performed, left⟩ :=
      exists_perform_storeElement method site.indices_ne_nil built.ne_nil (sameHeap ▸ found) holds
    rw [site.same] at performed
    rw [sameHeap] at left
    refine ⟨τ, performed, ?_, fun same => ?_⟩
    · rw [left, ← ElemKind.bytes_access]
      exact writes _ _ (by rwa [ElemKind.bytes_access])
    · rw [heap, left, same]
  · rw [← stored]
    exact .storeOp cpu kind.access (mem_intRegs_of_mem_registers (ints inInts)) fun r inReg =>
      num_lt_of_mem_registers (floats (drawn r inReg))

/-! A double in a float register is stored to the first element of a matrix of chars. -/

namespace DoubleAmongChars

def three : Word := 0x4008000000000000

/-- A machine with the matrix. -/
def machine : Machine where
  program := {}
  settings := {}
  heap := Heap.charMatrix.2
  statics := #[]
  records := #[]
  seed := 1
  clock := 0

/-- The matrix, two indices and the double are pending. -/
def start : GenState Reg Xmm where
  pending := [.imm Heap.charMatrix.1, .imm 0, .imm 0, .floatReg ⟨⟨1⟩, false⟩]
  ints := (backend .sysV).ints
  floats := (backend .sysV).floats.acquire.2

/-- The generator after the store. -/
def last : GenState Reg Xmm :=
  match Gen.storeElement .char 2 start with
  | .ok _ t => t
  | .error _ t => t

/-- The method has no other code. -/
def execution : Execution Reg Xmm where
  scope := { program := {}, method := { name := "store", code := #[] } }
  answer _ _ heap output := (.ok [], heap, output)
  call _ _ _ := pure ()
  entry := { method := ⟨0, 0⟩, classMemory := 0, receiver := 0 }
  last := last
  capacity := 8
  outer := []

/-- The double is in its register, and the operand stack in memory is empty. -/
def config : Config Reg Xmm where
  place := 0
  proc := { floats := [(⟨1⟩, .ofWord three)], slots := Array.replicate (frameSlots 0) 0 }
  state := { machine, context := { stack := .empty 8, frames := [.blank] } }

/-- What this stands for. -/
def ideal : Ideal where
  stack := [Heap.charMatrix.1, 0, 0, three]
  mem := #[0]
  machine := machine

lemma storeSite : execution.StoreSite .char [3, 4]
    [0, 0] Heap.charMatrix.1 three [] start last config ideal where
  compiled := rfl
  alive := ⟨rfl, rfl⟩
  grows := ⟨Nat.le_refl _, fun _ _ at_i _ => at_i, fun _ words _ _ at_i =>
    ⟨words, UInt32.le_refl _, at_i⟩⟩
  owned := by
    refine ⟨(distinct_ints .sysV {}).lends, (distinct_floats .sysV {}).lends.acquire rfl, ?_, ?_⟩
    · decide
    · simp [start, Pending.local?]
  at_start := rfl
  stands := by
    refine ⟨start.pending.zip ideal.stack, [], rfl, rfl, ?_,
      OperandStack.holds_empty (by decide), by decide, ?_, rfl, rfl, rfl, rfl, .blank, rfl⟩
    · simp [start, ideal, Pending.value, config, Processor.float, Bank.value?]
    · refine ⟨rfl, rfl, ?_, rfl, rfl⟩
      rintro i ⟨⟩
  stack := rfl
  nonempty := by decide
  same := rfl
  few := by decide

end DoubleAmongChars

open DoubleAmongChars in
/-- The store reaches into the next char: its highest byte becomes that of the double. -/
theorem exists_writes_of_storeElement_double : ∃ n c', execution.Steps n config c' ∧
    Heap.charMatrix.2.byte? ⟨0, 39⟩ = some 0 ∧ c'.state.machine.heap.byte? ⟨0, 39⟩ = some 0x40 := by
  obtain ⟨b, built, size⟩ := Heap.exists_built_charMatrix
  have found : Heap.charMatrix.2.element .char Heap.charMatrix.1 [0, 0] =
    .ok (Heap.charMatrix.1 + 32) := by
    decide +kernel
  have place : Heap.charMatrix.2.locate? (Heap.charMatrix.1 + 32) = some ⟨0, 32⟩ := by
    decide +kernel
  obtain ⟨first, -, located, ⟨n, c', steps, -, -, writes, -⟩, -⟩ :=
    exists_writes_of_storeElement .sysV {} storeSite built found (List.Subset.refl _) (by decide)
  obtain rfl : first = ⟨0, 32⟩ := Option.some.inj (located.symm.trans place)
  refine ⟨n, c', steps, by decide +kernel, ?_⟩
  exact (writes (.inr (by rw [size]; decide))).inside 7 (by decide)

end StackMachine.X64
