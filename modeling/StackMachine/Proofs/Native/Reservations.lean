import StackMachine.Proofs.A64.Selection
import StackMachine.Proofs.X64.Selection

/-!
# Stack reservations

The word count of a stack reservation stands in a field of its code, on AArch64 in two fields.
Patching it, any number of times and whatever has been emitted since, gives the code of a
reservation of the last count (`Backend.Widens`).  The code of a reservation leaves by its branch
just when the words do not fit below the limit of the operand stack (`reservations_widen`).
-/

namespace StackMachine

namespace CodeBuffer

/-- Bytes are appended. -/
lemma emit_eq (b : CodeBuffer) (bytes : List UInt8) :
    b.emit bytes = ⟨(b.bytes.toList ++ bytes).toArray⟩ := by
  simp [emit, ← Array.toList_inj]

lemma emit_emit (b : CodeBuffer) (first second : List UInt8) :
    (b.emit first).emit second = b.emit (first ++ second) := by
  simp [emit_eq]

lemma overwrite_middle (front old new back : List UInt8) (same : old.length = new.length) :
    overwrite (front ++ (old ++ back)).toArray front.length new =
      (front ++ (new ++ back)).toArray := by
  induction new generalizing front old with
  | nil =>
    rw [List.length_eq_zero_iff.1 same]
    rfl
  | cons byte rest ih =>
    obtain ⟨first, old, rfl⟩ := List.exists_cons_of_length_eq_add_one same
    have shifted := ih (front ++ [byte]) old (Nat.succ.inj same)
    rw [List.length_append, List.append_assoc, List.append_assoc] at shifted
    rw [overwrite, List.setIfInBounds_toArray, List.set_append_right _ _ (Nat.le_refl _),
      Nat.sub_self]
    exact shifted

variable (b : CodeBuffer) (front back : List UInt8)

/-- A field that has been emitted is patched. -/
lemma patch32?_emit (old value : UInt32) :
    (b.emit (front ++ (bytes32 old ++ back))).patch32? (b.offset + front.length) value =
      some (b.emit (front ++ (bytes32 value ++ back))) := by
  have place : b.offset + front.length = (b.bytes.toList ++ front).length := by
    simp [offset]
  have whole := overwrite_middle (b.bytes.toList ++ front) (bytes32 old) (bytes32 value) back rfl
  rw [List.append_assoc, List.append_assoc, ← place] at whole
  rw [patch32?, if_pos, emit_eq, emit_eq]
  · exact congrArg (fun bytes => some (CodeBuffer.mk bytes)) whole
  · have inside : (b.emit (front ++ (bytes32 old ++ back))).offset =
      b.offset + (front.length + (4 + back.length)) := by
      rw [offset_emit, List.length_append, List.length_append]
      rfl
    show _ ≤ offset _
    omega

lemma read32?_emit (value : UInt32) :
    (b.emit (front ++ (bytes32 value ++ back))).read32? (b.offset + front.length) = some value :=
  read32?_of_patch32? (patch32?_emit b front back value value)

end CodeBuffer

namespace Native

variable {γ φ lits : Type}

lemma Assembly.code_foldl_addPiece (pieces : List Piece) (a : Assembly lits) :
    (pieces.foldl addPiece a).code = a.code.emit (pieces.flatMap Piece.bytes) := by
  induction pieces generalizing a with
  | nil => simp [CodeBuffer.emit_eq]
  | cons piece rest ih =>
    rw [List.foldl_cons, ih, List.flatMap_cons, ← CodeBuffer.emit_emit]
    rfl

namespace Backend

/-- A reservation that is patched again and again is the reservation of the last count, byte for
byte. -/
def Widens (backend : Backend γ φ lits) : Prop :=
  ∀ (a : Assembly lits) (target : JumpTarget) (first : UInt32) (more : List UInt32)
    (later : List UInt8), ∃ narrow wide, Assembly.emit backend a (.reserve first target) =
      .ok narrow ∧
      Assembly.emit backend a (.reserve (more.getLastD first) target) = .ok wide ∧
      more.foldl (backend.patchReserve · (a.code.offset + backend.reserveField) ·)
        (narrow.code.emit later) = wide.code.emit later

/-- It is enough to patch a count once. -/
lemma widens_of_patch {backend : Backend γ φ lits} (pieces : UInt32 → JumpTarget → List Piece)
    (lowers : ∀ l words target, backend.lower l (.reserve words target) =
      .ok (pieces words target, l))
    (patches : ∀ (b : CodeBuffer) old words target later,
      backend.patchReserve (b.emit ((pieces old target).flatMap Piece.bytes ++ later))
      (b.offset + backend.reserveField) words =
      b.emit ((pieces words target).flatMap Piece.bytes ++ later)) :
    backend.Widens := by
  intro a target first more later
  have emitted (words : UInt32) : Assembly.emit backend a (.reserve words target) =
      .ok ((pieces words target).foldl Assembly.addPiece a) := by
    unfold Assembly.emit
    dsimp only
    rw [lowers]
    rfl
  refine ⟨_, _, emitted first, emitted _, ?_⟩
  simp only [Assembly.code_foldl_addPiece, CodeBuffer.emit_emit]
  induction more generalizing first with
  | nil => rfl
  | cons words rest ih =>
    rw [List.foldl_cons, patches, ih]
    cases rest <;> rfl

end Backend

end Native

/-- A position and a count of words are compared with a limit. -/
lemma if_lt_add_words {α : Type} {cursor : Word} (limit : Word) (words : UInt32)
    (low : 0 ≤ cursor.toInt) (high : cursor.toInt < 2 ^ 62) (a b : α) :
    (if limit.toInt < cursor.toInt + words.toNat then a else b) = if Comparison.gt.evalWord
        (cursor + words.toUInt64.toInt64) limit then a else b := by
  have small := words.toNat_lt
  have count : words.toUInt64.toInt64 = Word.ofNat words.toNat := by
    apply Int64.toBitVec_inj.1
    apply BitVec.eq_of_toNat_eq
    simp [Word.ofNat]
  have sum : (cursor + words.toUInt64.toInt64).toInt = cursor.toInt + words.toNat := by
    rw [count, Int64.toInt_add, Word.toInt_ofNat (by omega)]
    exact Int.bmod_eq_of_le (by simp; omega) (by simp; omega)
  rw [← sum]
  exact if_congr (Int64.lt_iff_toInt_lt.symm.trans decide_eq_true_iff.symm) rfl rfl

/-! ### x86-64 -/

namespace X64

open Native

variable {abi : Abi} {addresses : Addresses}

lemma backend_widens : (backend abi addresses).Widens := by
  refine Backend.widens_of_patch (fun words target => (reserve words target).map Step.piece)
    (fun _ _ _ => rfl) ?_
  intro b old words target later
  obtain ⟨back, split⟩ : ∃ back, ∀ words : UInt32,
      ((reserve words target).map Step.piece).flatMap Piece.bytes ++ later =
        (encodeAll reserveLead ++ [0xBA]) ++ (bytes32 words ++ back) := ⟨_, fun _ => rfl⟩
  have place : codeLength reserveLead + Instr.fieldOffset (.movImm32 .rdx 0) =
      (encodeAll reserveLead ++ [0xBA]).length := by decide
  show ((b.emit _).patch32?
    (b.offset + (codeLength reserveLead + Instr.fieldOffset (.movImm32 .rdx 0))) _).getD _ = _
  rw [split, split, place, b.patch32?_emit, Option.getD_some]

/-- The position of the operand stack: the word that a slot points to. -/
def Cpu.cursor (s : Cpu) : Word := s.read .word (s.src (.slot FrameSlot.stackPos.index))

/-- The limit of the operand stack, a word of the context. -/
def Cpu.stackLimit (s : Cpu) : Word :=
  s.read .word (s.src (.slot FrameSlot.context.index) + Word.ofNat stackLimitOffset)

lemma load_mem (s : Cpu) (base : Reg) (disp : Int32) :
    s.load .word (mem base disp) = s.read .word (s.regs base + disp.toInt64) := by
  rw [Cpu.load, Cpu.address]
  exact congrArg (s.read .word <| · + _) (Int64.add_zero _)

/-- A reservation leaves by its branch when there is no room. -/
lemma executes_reserve (s : Cpu) (words : UInt32) (target : JumpTarget) (low : 0 ≤ s.cursor.toInt)
    (high : s.cursor.toInt < 2 ^ 62) :
    Executes abi addresses (.reserve words target) s
      (if s.stackLimit.toInt < s.cursor.toInt + words.toNat then some target else none)
      (Keeps abi [] s) := by
  let found := s.setReg .rax (s.load .word (argSlot .stackPos))
  let read := found.setReg .rax (found.load .word (mem .rax 0))
  let counted := read.setReg .rdx words.toUInt64.toInt64
  let added := counted.alu .add .rax (counted.regs .rdx)
  let context := added.setReg scratch (added.load .word (argSlot .context))
  let compared := context.alu .cmp .rax
    (context.load .word (mem scratch (Int32.ofNat stackLimitOffset)))
  have position : found.load .word (mem .rax 0) = s.cursor := by
    rw [load_mem]
    exact congrArg (s.read .word) (Int64.add_zero _)
  have sum : context.regs .rax = s.cursor + words.toUInt64.toInt64 := by
    rw [← position]
    rfl
  have limit : context.load .word (mem scratch (Int32.ofNat stackLimitOffset)) = s.stackLimit := by
    rw [load_mem]
    rfl
  have spares : s.Spares ([] ++ scratchRegs) compared :=
    (((((Cpu.Spares.refl s).setReg (by decide) _).setReg (by decide) _).setReg (by decide) _).alu
      .add (by decide) _).setReg (by decide) _ |>.alu .cmp (by decide) _
  have encodable : ∀ i ∈ reserveLead ++ [.movImm32 .rdx words, .aluRR .add .rax .rdx,
      .movRM scratch (argSlot .context),
      .aluRM .cmp .rax (mem scratch (Int32.ofNat stackLimitOffset))], i.Encodable := by
    simp [reserveLead, Instr.Encodable, Instr.mem?, Instr.xmms, Instr.byteRegs, Mem.Valid, mem,
      argSlot, slot]
  rw [if_lt_add_words _ words low high, ← sum, ← limit]
  exact .of_plain_branch _ .gt (fun _ => rfl) encodable
    (rfl : execAll Instr.exec s _ = .ok compared) (holds?_condOf_cmp .gt _ _)
      (Keeps.of_spares (by simp) spares)

end X64

/-! ### AArch64 -/

namespace A64

open Native

variable {addresses : Addresses}

lemma replace_immediate {front back : UInt32} (old new : UInt16)
    (free : ∀ i < 32, ¬(i < 5 ∨ 21 ≤ i) → front.toBitVec.getLsbD i = false ∧
      back.toBitVec.getLsbD i = false) :
    ((front ||| old.toUInt32 <<< 5 ||| back) &&& ~~~((0xFFFF : UInt32) <<< 5)) |||
      new.toUInt32 <<< 5 = front ||| new.toUInt32 <<< 5 ||| back := by
  apply UInt32.toBitVec_inj.1
  refine BitVec.eq_of_getLsbD_eq fun i lt => ?_
  have placed (imm : UInt16) (outside : i < 5 ∨ 21 ≤ i) : (imm.toUInt32 <<< 5).toBitVec.getLsbD i =
    false := by
    have high (from5 : 5 ≤ i) : imm.toBitVec.getLsbD (i - 5) = false :=
      BitVec.getLsbD_of_ge _ _ (by omega)
    simp +contextual [high]
  have mask : ∀ i < 32, (~~~((0xFFFF : UInt32) <<< 5)).toBitVec.getLsbD i = decide
    (i < 5 ∨ 21 ≤ i) := by decide
  rw [UInt32.toBitVec_or, UInt32.toBitVec_and, UInt32.toBitVec_or, UInt32.toBitVec_or,
    UInt32.toBitVec_or, UInt32.toBitVec_or, BitVec.getLsbD_or, BitVec.getLsbD_and,
    BitVec.getLsbD_or, BitVec.getLsbD_or, BitVec.getLsbD_or, BitVec.getLsbD_or, mask i lt]
  by_cases outside : i < 5 ∨ 21 ≤ i
  · rw [placed old outside, placed new outside, decide_eq_true outside, Bool.and_true,
      Bool.or_false, Bool.or_false]
  · rw [(free i lt outside).1, (free i lt outside).2, decide_eq_false outside, Bool.and_false,
      Bool.or_false, Bool.false_or]

lemma low_eq (words : UInt32) : words &&& 0xFFFF = words.toUInt16.toUInt32 := by
  apply UInt32.toNat_inj.1
  simp
  exact Nat.and_two_pow_sub_one_eq_mod _ 16

lemma high_eq (words : UInt32) : words >>> 16 = (words >>> 16).toUInt16.toUInt32 := by
  apply UInt32.toNat_inj.1
  have := words.toNat_lt
  simp [Nat.shiftRight_eq_div_pow]
  omega

lemma patchHalf_emit (b : CodeBuffer) (front back : List UInt8) (base : UInt32) (half : UInt8)
    (old new : UInt16)
    (free : ∀ i < 32, ¬(i < 5 ∨ 21 ≤ i) →
      (base ||| (half &&& 3).toUInt32 <<< 21).toBitVec.getLsbD i = false ∧
      scratch1.num.toBitVec.getLsbD i = false) :
    patchHalf (b.emit (front ++ (bytes32 (halfFields base old half scratch1.num) ++ back)))
        (b.offset + front.length) new.toUInt32 =
      b.emit (front ++ (bytes32 (halfFields base new half scratch1.num) ++ back)) := by
  rw [patchHalf, b.read32?_emit]
  dsimp only
  rw [b.patch32?_emit, halfFields, replace_immediate old new free]
  rfl

lemma backend_widens : (backend addresses).Widens := by
  refine Backend.widens_of_patch (fun words target => (reserve words target).map Step.piece)
    (fun _ _ _ => rfl) ?_
  intro b old words target later
  obtain ⟨back, split⟩ : ∃ back, ∀ words : UInt32,
      ((reserve words target).map Step.piece).flatMap Piece.bytes ++ later =
        encodeAll reserveLead ++ (bytes32 (halfFields 0xD2800000 words.toUInt16 0 scratch1.num) ++
          (bytes32 (halfFields 0xF2800000 (words >>> 16).toUInt16 1 scratch1.num) ++ back)) :=
          ⟨_, fun _ => rfl⟩
  have first := patchHalf_emit b (encodeAll reserveLead)
    (bytes32 (halfFields 0xF2800000 (old >>> 16).toUInt16 1 scratch1.num) ++ back) 0xD2800000 0
      old.toUInt16 words.toUInt16 (by decide)
  have second := patchHalf_emit b
    (encodeAll reserveLead ++ bytes32 (halfFields 0xD2800000 words.toUInt16 0 scratch1.num)) back
      0xF2800000 1 (old >>> 16).toUInt16 (words >>> 16).toUInt16 (by decide)
  rw [← low_eq] at first
  rw [List.append_assoc, List.append_assoc, ← high_eq] at second
  show patchHalf (patchHalf _ (b.offset + (encodeAll reserveLead).length) (words &&& 0xFFFF))
    (b.offset + (encodeAll reserveLead ++ bytes32
    (halfFields 0xD2800000 words.toUInt16 0 scratch1.num)).length) (words >>> 16) = _
  rw [split, split, first, second]

/-- The position of the operand stack: the word that a slot points to. -/
def Cpu.cursor (s : Cpu) : Word := s.memory.readWord (s.src (.slot FrameSlot.stackPos.index))

/-- The limit of the operand stack, a word of the context. -/
def Cpu.stackLimit (s : Cpu) : Word :=
  s.memory.readWord (s.src (.slot FrameSlot.context.index) + Word.ofNat stackLimitOffset)

/-- A count of words is put together from its halves. -/
lemma eval_halves (words : UInt32) (a : Word) :
    WideMove.keep.eval (WideMove.zeros.eval a words.toUInt16.toNat 0)
      (words >>> 16).toUInt16.toNat 1 = words.toUInt64.toInt64 := by
  have small := words.toNat_lt
  refine eq_of_halfOf_eq fun i lt => ?_
  rw [halfOf_keep _ _ lt (by decide), halfOf_zeros _ _ lt (by decide)]
  have places : i = 0 ∨ i = 1 ∨ i = 2 ∨ i = 3 := by omega
  rcases places with rfl | rfl | rfl | rfl <;> apply UInt16.toNat_inj.1 <;>
    simp [halfOf, Nat.shiftRight_eq_div_pow] <;> omega

lemma exec_count (s : Cpu) (words : UInt32) (rest : List Instr) :
    execAll Instr.exec s (.movz scratch1 words.toUInt16 0 :: .movk scratch1 (words >>> 16).toUInt16
      1 :: rest) = execAll Instr.exec (s.setReg scratch1 words.toUInt64.toInt64) rest := by
  rw [execAll_cons (exec_moveWide (by decide) .zeros words.toUInt16 (by decide : 0 < 4) rfl s),
    execAll_cons (exec_moveWide (by decide) .keep (words >>> 16).toUInt16 (by decide : 1 < 4) rfl
    _), Cpu.setReg_regs, Function.update_self, eval_halves, setReg_setReg]

/-- A reservation leaves by its branch when there is no room. -/
lemma executes_reserve (s : Cpu) (words : UInt32) (target : JumpTarget) (low : 0 ≤ s.cursor.toInt)
    (high : s.cursor.toInt < 2 ^ 62) :
    Executes addresses (.reserve words target) s
      (if s.stackLimit.toInt < s.cursor.toInt + words.toNat then some target else none)
      (Keeps [] s) := by
  let found := s.setReg addrScratch (s.src (.slot FrameSlot.stackPos.index))
  let read := found.setReg scratch0
    (found.memory.readWord (found.regs addrScratch + Word.ofNat (8 * 0)))
  let counted := read.setReg scratch1 words.toUInt64.toInt64
  let added := counted.setReg scratch0 (counted.get scratch0 + counted.get scratch1)
  let context := added.setReg addrScratch (added.src (.slot FrameSlot.context.index))
  let limited := context.setReg addrScratch
    (context.memory.readWord (context.regs addrScratch + Word.ofNat (8 * 2)))
  let compared := limited.setFlags (addSub true (limited.get scratch0) (limited.get addrScratch)).2
  have position : (Instr.ldr scratch0 addrScratch 0).exec found = some read := by
    rw [show 0 = slotOffset 0 by decide]
    exact exec_ldr found addrScratch (by decide) (by decide)
  have sums : (Instr.reg .add scratch0 scratch0 scratch1).exec counted = some added :=
    exec_regOpOf counted .add (by decide) scratch0 scratch1
  have contexts : (Instr.ldr addrScratch .sp (argOffset .context)).exec added = some context :=
    exec_ldr added .sp (by decide) (by decide)
  have limits : (Instr.ldr addrScratch addrScratch (UInt32.ofNat stackLimitOffset)).exec context =
    some limited := by
    rw [show UInt32.ofNat stackLimitOffset = slotOffset 2 by decide]
    exact exec_ldr context addrScratch (by decide) (by decide)
  have run : execAll Instr.exec s
      (reserveLead ++ [.movz scratch1 words.toUInt16 0, .movk scratch1 (words >>> 16).toUInt16 1,
      .reg .add scratch0 scratch0 scratch1, .ldr addrScratch .sp (argOffset .context),
        .ldr addrScratch addrScratch (UInt32.ofNat stackLimitOffset), .cmp scratch0 addrScratch]) =
          some compared := by
    have lead : execAll Instr.exec s reserveLead = some read := by
      rw [reserveLead, argOffset, execAll_cons (exec_ldr s .sp (by decide) (by decide)),
        execAll_singleton]
      exact position
    rw [execAll_append_of_eq lead, exec_count]
    show execAll Instr.exec counted _ = _
    rw [execAll_cons sums, execAll_cons contexts, execAll_cons limits, execAll_singleton, exec_cmp]
  have sum : limited.get scratch0 = s.cursor + words.toUInt64.toInt64 := by
    have cursor : found.memory.readWord (found.regs addrScratch + Word.ofNat (8 * 0)) = s.cursor :=
      congrArg s.memory.readWord (Int64.add_zero _)
    rw [← cursor]
    rfl
  have limit : limited.get addrScratch = s.stackLimit := rfl
  have spares : s.Spares ([] ++ scratchRegs) compared :=
    (((((((Cpu.Spares.refl s).setReg (by decide) _).setReg (by decide) _).setReg
      (by decide) _).setReg (by decide) _).setReg (by decide) _).setReg (by decide) _).setFlags _
  rw [if_lt_add_words _ words low high, ← sum, ← limit]
  exact .of_plain_branch _ .gt (fun _ => rfl) run ((compare_addSub_true _ _).holds .gt)
    (Keeps.of_spares (by simp) spares)

end A64

namespace Native

/-- **A widened reservation is a wider one**, on every processor: patching the word count of a
reservation gives the code of a reservation of the last count, and such code leaves by its branch
just when the position and the count are above the limit of the operand stack. -/
theorem reservations_widen (addresses : Addresses) :
    (∀ abi, (X64.backend abi addresses).Widens ∧
      ∀ (s : X64.Cpu) words target, 0 ≤ s.cursor.toInt → s.cursor.toInt < 2 ^ 62 →
        X64.Executes abi addresses (.reserve words target) s
          (if s.stackLimit.toInt < s.cursor.toInt + words.toNat then some target else none)
            (X64.Keeps abi [] s)) ∧
      (A64.backend addresses).Widens ∧
      ∀ (s : A64.Cpu) words target, 0 ≤ s.cursor.toInt → s.cursor.toInt < 2 ^ 62 →
        A64.Executes addresses (.reserve words target) s
          (if s.stackLimit.toInt < s.cursor.toInt + words.toNat then some target else none)
          (A64.Keeps [] s) :=
  ⟨fun _ => ⟨X64.backend_widens, X64.executes_reserve⟩, A64.backend_widens, A64.executes_reserve⟩

/-- A position at the limit, with every byte of memory the same. -/
theorem reservations_widen_full :
    let x64 : X64.Cpu := ⟨fun _ => 0, fun _ => 0, .allOpen, fun _ => 0x3F⟩
    let a64 : A64.Cpu := ⟨fun _ => 0, fun _ => 0, ⟨false, false, false, false⟩, fun _ => 0x3F⟩
    x64.cursor = 0x3F3F3F3F3F3F3F3F ∧ a64.cursor = 0x3F3F3F3F3F3F3F3F ∧
      X64.Executes .win64 {} (.reserve 1 (.fault .stackOverflow)) x64 (some (.fault .stackOverflow))
        (X64.Keeps .win64 [] x64) ∧
      A64.Executes {} (.reserve 0 (.fault .stackOverflow)) a64 none (A64.Keeps [] a64) := by
  intro x64 a64
  obtain ⟨onX64, -, onA64⟩ := reservations_widen {}
  have leaves := (onX64 .win64).2 x64 1 (.fault .stackOverflow) (by decide) (by decide)
  have passes := onA64 a64 0 (.fault .stackOverflow) (by decide) (by decide)
  rw [if_pos (by decide)] at leaves
  rw [if_neg (by decide)] at passes
  exact ⟨by decide, by decide, leaves, passes⟩

end Native

end StackMachine
