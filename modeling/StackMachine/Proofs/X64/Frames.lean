import StackMachine.Proofs.Native.FrameModel
import StackMachine.Proofs.X64.Selection

/-!
# Frames on x86-64

From the stack pointer of the caller downwards a frame has the return address, the frame pointer of
the caller, seven registers and the slots.  Entry arguments come in registers, and above the return
address after those; under one of the two conventions there are four more words between.

What code does to a state is said by the words it writes (`Straight`); so the code that opens a
frame is one list of writes, put together from those of its parts (`openingParts`).  The
displacements of slots have 32 bits, so a frame must not be larger than they reach (`Reached`).
-/

namespace StackMachine.X64

open Native
open ByteMemory (place place_add place_zero)

variable {k : Int} {regs : List Reg} {disp : Int32} {args : List FrameSlot}

/-! ### Memory as words -/

lemma ofBytes_eq_ofDigits (bytes : List UInt8) :
    ofBytes bytes = Nat.ofDigits 256 (bytes.map UInt8.toNat) := by
  induction bytes with
  | nil => rfl
  | cons b rest ih =>
    rw [ofBytes, ih, List.map_cons, Nat.ofDigits_cons]

lemma read_word (s : Cpu) (a : Word) : s.read .word a = ByteMemory.readWord s.memory a := by
  rw [Cpu.read, ofBytes_eq_ofDigits, List.map_map]
  rfl

lemma toInt64_eq_ofInt (imm : Int32) : imm.toInt64 = Int64.ofInt imm.toInt := by
  have low := imm.le_toInt
  have high := imm.toInt_lt
  rw [← Int64.toInt_inj, Int32.toInt_toInt64, Int64.toInt_ofInt_of_le (by omega) (by omega)]

/-- The address of an operand without an index. -/
lemma address_mem (s : Cpu) (base : Reg) (disp : Int32) :
    s.address (mem base disp) = place (s.regs base) disp.toInt := by
  have sum : s.address (mem base disp) = s.regs base + 0 + disp.toInt64 := rfl
  rw [sum, toInt64_eq_ofInt, Int64.add_zero]
  rfl

variable {abi : Abi} {addresses : Addresses} {s t u : Cpu} {base : Word} {index : Nat}

/-- The address of a slot that a displacement of 32 bits reaches, when the frame pointer is 16 bytes
below another pointer. -/
lemma address_slot_place (framePointer : s.regs .rbp = place base (-16))
    (reached : index + 8 ≤ 2 ^ 28) :
    s.address (slot index) = place base (-72 - 8 * (index + 1)) := by
  have disp : (slot index).disp.toInt = -56 - 8 * (index + 1) := by
    rw [slot_disp, Int32.toInt_ofInt_of_le (by omega) (by omega)]
  have address : s.address (slot index) = place (s.regs .rbp) (slot index).disp.toInt :=
    address_mem s .rbp _
  rw [address, disp, framePointer, place_add]
  exact congrArg (place base) (by omega)

/-! ### Straight code -/

section Straight

variable {i : Instr} {r : Reg} {a value : Word} {m : Mem} {spared : List Reg}

/-- Instructions that can be encoded take one state to another. -/
def Performs (code : List Instr) (s t : Cpu) : Prop := (∀ i ∈ code, i.Encodable) ∧
    execAll Instr.exec s code = .ok t

instance : Sequential Performs where
  nil _ := ⟨List.forall_mem_nil _, rfl⟩
  append first second :=
    ⟨List.forall_mem_append.2 ⟨first.1, second.1⟩, (execAll_append_of_eq first.2 _).trans second.2⟩

/-- Code writes to some registers, to the flags and to words in memory. -/
abbrev Straight : List Instr → List Reg → List (Word × Word) → Cpu → Cpu → Prop :=
  Native.Straight Performs Cpu.regs Cpu.xmms Cpu.memory

lemma straight_of_spares (encodable : i.Encodable) (run : i.exec s = .ok t)
    (spares : s.Spares spared t) :
    Straight [i] spared [] s t :=
  ⟨spares, List.forall_mem_singleton.2 encodable, execAll_cons run []⟩

lemma straight_store (spared : List Reg) (encodable : i.Encodable)
    (run : i.exec s = .ok (s.write .word a value)) :
    Straight [i] spared [(a, value)] s (s.write .word a value) :=
  ⟨⟨fun _ _ => rfl, rfl, rfl⟩, List.forall_mem_singleton.2 encodable, execAll_cons run []⟩

lemma straight_movMR (spared : List Reg) (encodable : (Instr.movMR m r).Encodable)
    (address : s.address m = a) (holds : s.regs r = value) :
    Straight [.movMR m r] spared [(a, value)] s (s.write .word a value) := by
  refine straight_store spared encodable ?_
  rw [← address, ← holds]
  rfl

lemma straight_movRM (encodable : (Instr.movRM r m).Encodable) (mem : r ∈ spared)
    (address : s.address m = a) (holds : ByteMemory.readWord s.memory a = value) :
    Straight [.movRM r m] spared [] s (s.setReg r value) := by
  refine straight_of_spares encodable ?_ ((Cpu.Spares.refl s).setReg mem _)
  rw [← holds, ← address, ← read_word]
  rfl

lemma straight_moveConst (mem : r ∈ spared) (value : Word) (s : Cpu) :
    ∃ flags, Straight [.moveConst r value] spared [] s ((s.setReg r value).setFlags flags) := by
  obtain ⟨flags, run⟩ := exec_moveConst s r value
  exact ⟨flags, straight_of_spares (encodable_moveConst r value) run
    (((Cpu.Spares.refl s).setReg mem _).setFlags _)⟩

end Straight

/-! ### Registers on the stack -/

/-- Where registers are pushed, from a distance on. -/
def pushes : Int → List Reg → List (Int × Reg)
  | _, [] => []
  | k, r :: rest => (k - 8, r) :: pushes (k - 8) rest

lemma mem_of_mem_pushes {p : Int × Reg} (mem : p ∈ pushes k regs) : p.2 ∈ regs := by
  induction regs generalizing k with
  | nil => cases mem
  | cons r rest ih =>
    rcases List.mem_cons.1 mem with rfl | later
    · exact .head _
    · exact .tail _ (ih later)

lemma pushes_congr (same : ∀ r ∈ regs, t.regs r = s.regs r) :
    (pushes k regs).map (fun p => (place base p.1, t.regs p.2)) =
      (pushes k regs).map fun p => (place base p.1, s.regs p.2) :=
  List.map_congr_left fun p mem => by rw [same p.2 (mem_of_mem_pushes mem)]

/-- Registers are pushed one below another. -/
lemma exec_pushes (regs : List Reg) (other : .rsp ∉ regs)
    (stackPointer : s.regs .rsp = place base k) :
    ∃ t, t.regs .rsp = place base (k - 8 * regs.length) ∧
      Straight (regs.map .push) [.rsp] ((pushes k regs).map fun p => (place base p.1, s.regs p.2)) s
        t := by
  induction regs generalizing s k with
  | nil => exact ⟨s, by simpa using stackPointer, .nil _ s⟩
  | cons r rest ih =>
    obtain ⟨ne, otherRest⟩ := not_or.1 (List.mem_cons.not.1 other)
    have top : s.regs .rsp - 8 = place base (k - 8) := by
      rw [stackPointer]
      exact (ByteMemory.sub_ofInt _ 8).trans (place_add base k (-8))
    let pushed := (s.write .word (place base (k - 8)) (s.regs r)).setReg .rsp (place base (k - 8))
    have push : (Instr.push r).exec s = .ok pushed := by
      show Except.ok ((s.write .word (s.regs .rsp - 8) (s.regs r)).setReg .rsp (s.regs .rsp - 8)) =
        _
      rw [top]
    have first : Straight [.push r] [.rsp] [(place base (k - 8), s.regs r)] s pushed :=
      ⟨⟨((Cpu.Spares.refl _).setReg (.head _) _).regs, rfl, rfl⟩,
        List.forall_mem_singleton.2 (encodable_of_none rfl rfl rfl), execAll_cons push []⟩
    have moved : pushed.regs .rsp = place base (k - 8) := by simp [pushed]
    obtain ⟨t, stackPointer', second⟩ := ih otherRest moved
    have same (r : Reg) (mem : r ∈ rest) : pushed.regs r = s.regs r :=
      first.regs r fun isTop => otherRest (List.mem_singleton.1 isTop ▸ mem)
    rw [pushes_congr same] at second
    refine ⟨t, ?_, first.append second⟩
    rw [stackPointer', List.length_cons]
    exact congrArg (place base) (by omega)

/-- Where registers are popped, from a distance on. -/
def pops : Int → List Reg → List (Int × Reg)
  | _, [] => []
  | k, r :: rest => (k, r) :: pops (k + 8) rest

/-- Registers are popped one above another. -/
lemma exec_pops (regs : List Reg) (other : .rsp ∉ regs) (distinct : regs.Nodup)
    (stackPointer : s.regs .rsp = place base k) :
    ∃ t, t.regs .rsp = place base (k + 8 * regs.length) ∧
      (∀ p ∈ pops k regs, t.regs p.2 = ByteMemory.readWord s.memory (place base p.1)) ∧
      Straight (regs.map .pop) (.rsp :: regs) [] s t := by
  induction regs generalizing s k with
  | nil => exact ⟨s, by simpa using stackPointer, by simp [pops], .nil _ s⟩
  | cons r rest ih =>
    obtain ⟨ne, otherRest⟩ := not_or.1 (List.mem_cons.not.1 other)
    obtain ⟨notLater, distinctRest⟩ := List.nodup_cons.1 distinct
    let popped := (s.setReg .rsp (place base (k + 8))).setReg r
      (ByteMemory.readWord s.memory (place base k))
    have pop : (Instr.pop r).exec s = .ok popped := by
      show Except.ok ((s.setReg .rsp (s.regs .rsp + 8)).setReg r (s.read .word (s.regs .rsp))) = _
      have up : s.regs .rsp + 8 = place base (k + 8) := by
        rw [stackPointer]
        exact place_add base k 8
      rw [up, read_word, stackPointer]
    have first : Straight [.pop r] (.rsp :: r :: rest) [] s popped :=
      straight_of_spares (encodable_of_none rfl rfl rfl) pop
        (((Cpu.Spares.refl s).setReg (.head _) _).setReg (by simp) _)
    have moved : popped.regs .rsp = place base (k + 8) := by simp [popped, ne]
    obtain ⟨t, stackPointer', values, second⟩ := ih otherRest distinctRest moved
    refine ⟨t, ?_, ?_, first.append (second.mono (by simp))⟩
    · rw [stackPointer', List.length_cons]
      exact congrArg (place base) (by omega)
    · intro p mem
      rcases List.mem_cons.1 mem with rfl | later
      · have kept : t.regs r = popped.regs r := second.regs r (by simp [notLater, Ne.symm ne])
        rw [kept]
        simp [popped]
      · exact values p later

/-! ### Entry arguments -/

/-- The bytes above the return address that belong to the called method. -/
def Abi.shadowBytes : Abi → Nat
  | .sysV => 0
  | .win64 => 32

lemma index_reached (arg : FrameSlot) : arg.index + 8 ≤ 2 ^ 28 := by cases arg <;> decide

/-- Code that stores an argument into its slot. -/
def storeArg (abi : Abi) (arg : FrameSlot) : List Instr :=
  match abi.argRegs[arg.index]? with
  | some r => [.movMR (argSlot arg) r]
  | none =>
    [.movRM .rax (mem .rbp (abi.stackArgsAt + 8 * Int32.ofNat (arg.index - abi.argRegs.length))),
      .movMR (argSlot arg) .rax]

lemma storeArgs_eq (abi : Abi) :
    storeArgs abi FrameSlot.all abi.argRegs abi.stackArgsAt =
      FrameSlot.all.flatMap (storeArg abi) := by
  cases abi <;> rfl

lemma exec_storeArg (abi : Abi) (arg : FrameSlot) (framePointer : s.regs .rbp = place base (-16)) :
    ∃ t, Straight (storeArg abi arg) [.rax] [(place base (-72 - 8 * (arg.index + 1)),
      received s.regs s.memory base abi.argRegs abi.shadowBytes arg.index)] s t := by
  have reached := index_reached arg
  unfold storeArg received
  cases abi.argRegs[arg.index]? with
  | some r =>
    exact ⟨_, straight_movMR _ (encodable_of_none rfl rfl rfl)
      (address_slot_place framePointer reached) rfl⟩
  | none =>
    let disp := abi.stackArgsAt + 8 * Int32.ofNat (arg.index - abi.argRegs.length)
    have distance : -16 + disp.toInt = abi.shadowBytes + 8 *
      (arg.index - abi.argRegs.length : Nat) := by
      cases abi <;> cases arg <;> decide
    have address : s.address (mem .rbp disp) =
        place base (abi.shadowBytes + 8 * (arg.index - abi.argRegs.length : Nat)) := by
      rw [address_mem, framePointer, place_add, distance]
    have load := straight_movRM (encodable_of_none rfl rfl rfl) (List.mem_singleton_self .rax)
      address rfl
    have framePointer' := (load.regs .rbp (by decide)).trans framePointer
    refine ⟨_, load.append (straight_movMR _ (encodable_of_none rfl rfl rfl)
      (address_slot_place framePointer' reached) ?_)⟩
    simp

/-! ### The model -/

/-- The registers that belong to the caller, apart from the stack pointer. -/
def Abi.calleeSaved : Abi → List Reg
  | .sysV => [.rbx, .rbp, .r12, .r13, .r14, .r15]
  | .win64 => [.rbx, .rbp, .rdi, .rsi, .r12, .r13, .r14, .r15]

/-- The SSE registers whose low words belong to the caller. -/
def Abi.CalleeSavedXmm (abi : Abi) (x : Xmm) : Prop := abi = .win64 ∧ 6 ≤ x.num

/-- The SSE registers that code writes. -/
def writtenXmms (abi : Abi) : List Xmm :=
  floatScratch :: ((backend abi).floats.primaryOrder ++ (backend abi).floats.auxOrder)

/-- Frames under a calling convention.  A call has pushed the return address. -/
def frameModel (abi : Abi) (addresses : Addresses) : FrameModel Reg Xmm Cpu where
  regs := Cpu.regs
  floats := Cpu.xmms
  memory := Cpu.memory
  stackPointer s := s.regs .rsp
  framePointer s := s.regs .rbp
  returnAddress s := ByteMemory.readWord s.memory (s.regs .rsp)
  caller s := place (s.regs .rsp) 8
  argument s arg := received s.regs s.memory (place (s.regs .rsp) 8) abi.argRegs abi.shadowBytes
    arg.index
  slotAddress s index := s.address (slot index)
  pushed s := (pushes (-8) (.rbp :: savedRegs)).map fun p => (p.1, s.regs p.2)
  kept := [-8]
  savedBytes := 72
  slotBytes locals := 8 * (frameSlots locals + (frameSlots locals + 1) % 2)
  slotsUp := false
  callBytes := abi.callArea.1.toInt.toNat
  writable x := x ∈ writtenXmms abi
  calleeSaved := abi.calleeSaved
  calleeSavedFloats := abi.CalleeSavedXmm
  lowers op pieces := ∀ pool, (backend abi addresses).lower pool op = .ok (pieces, pool)
  runs pieces s t := ∀ code start, Stand code start (pieces.flatMap Piece.bytes) →
    Runs code (start, s) ((start + (pieces.flatMap Piece.bytes).length : Nat), t)
  callPiece := Step.piece ⟨Instr.call .rax, none⟩
  returnPiece := Step.piece ⟨Instr.ret, none⟩

variable {locals : Nat}

/-- The whole frame can be reached by a displacement of 32 bits from the frame pointer. -/
def Reached (locals : Nat) :
    Prop := 56 + 8 * (frameSlots locals + (frameSlots locals + 1) % 2) ≤ 2 ^ 31

instance (locals : Nat) : Decidable (Reached locals) := inferInstanceAs (Decidable (_ ≤ _))

lemma frameModel_fits (abi : Abi) (addresses : Addresses) (reached : Reached locals) :
    (frameModel abi addresses).Fits locals where
  small := by
    have area : abi.callArea.1.toInt.toNat ≤ 80 := by cases abi <;> decide
    have bytes : (frameModel abi addresses).frameBytes locals =
        72 + 8 * (frameSlots locals + (frameSlots locals + 1) % 2) := rfl
    unfold Reached at reached
    rw [bytes]
    show _ + abi.callArea.1.toInt.toNat ≤ _
    omega
  aligned := by
    show 16 ∣ 72 + 8 * (frameSlots locals + (frameSlots locals + 1) % 2)
    omega
  callAligned := by
    show 16 ∣ abi.callArea.1.toInt.toNat
    cases abi <;> decide
  room := by
    show 8 * frameSlots locals ≤ 8 * (frameSlots locals + (frameSlots locals + 1) % 2)
    omega
  savedApart _ := by
    show ([-16, -24, -32, -40, -48, -56, -64, -72, -8] : List Int).Pairwise FrameModel.Apart
    decide
  savedInside _ := by
    show ∀ k ∈ ([-16, -24, -32, -40, -48, -56, -64, -72, -8] : List Int), -72 ≤ k ∧ k + 8 ≤ 0
    decide

/-- The return address is below the caller's stack pointer. -/
lemma stackPointer_eq_place (abi : Abi) (addresses : Addresses) (s : Cpu) :
    s.regs .rsp = place ((frameModel abi addresses).caller s) (-8) := by
  show _ = place (place (s.regs .rsp) 8) (-8)
  rw [place_add]
  exact (place_zero _).symm

lemma reached_of_lt (reached : Reached locals) {index : Nat} (lt : index < frameSlots locals) :
    index + 8 ≤ 2 ^ 28 := by
  unfold Reached at reached
  omega

/-! ### Opening a frame -/

/-- Moves the stack pointer down. -/
lemma exec_subRsp (s : Cpu) (imm : Int32) : ∃ flags, (Instr.aluRI .sub .rsp imm).exec s =
    .ok ((s.setReg .rsp (place (s.regs .rsp) (-imm.toInt))).setFlags flags) := by
  have signed : imm.toInt64 = Int64.ofInt imm.toInt := toInt64_eq_ofInt imm
  refine ⟨_, congrArg (fun w => Except.ok ((s.setReg .rsp w).setFlags _)) ?_⟩
  exact (congrArg (s.regs .rsp - ·) signed).trans (ByteMemory.sub_ofInt _ _)

/-- Code that saves registers and makes room for the slots. -/
def enterCode (locals : Nat) : List Instr :=
  [.push .rbp, .movRR .rbp .rsp] ++ savedRegs.map .push ++ [.aluRI .sub .rsp (frameBytes locals)]

lemma toInt_frameBytes (reached : Reached locals) :
    (frameBytes locals).toInt = 8 * (frameSlots locals + (frameSlots locals + 1) % 2) := by
  unfold Reached at reached
  rw [frameBytes, Int32.toInt_ofNat_of_lt (by omega)]
  omega

lemma exec_enterCode (reached : Reached locals) (top : s.regs .rsp = place base (-8)) :
    ∃ t, Straight (enterCode locals) [.rsp, .rbp]
        ((pushes (-8) (.rbp :: savedRegs)).map fun p => (place base p.1, s.regs p.2)) s t ∧
      t.regs .rsp = place base (-72 - 8 * (frameSlots locals + (frameSlots locals + 1) % 2)) ∧
      t.regs .rbp = place base (-16) := by
  obtain ⟨linked, linkedTop, link⟩ := exec_pushes [.rbp] (by decide) top
  let framed := linked.setReg .rbp (place base (-16))
  have frame : (Instr.movRR .rbp .rsp).exec linked = .ok framed :=
    congrArg (fun w => Except.ok (linked.setReg .rbp w)) linkedTop
  have toFramed := (link.mono (show [Reg.rsp] ⊆ [.rsp, .rbp] by simp)).append (straight_of_spares
    (encodable_of_none rfl rfl rfl) frame ((Cpu.Spares.refl linked).setReg (by simp) _))
  have framedTop : framed.regs .rsp = place base (-16) := by simp [framed, linkedTop]
  obtain ⟨saved, savedTop, save⟩ := exec_pushes savedRegs (by decide) framedTop
  have other : ∀ r ∈ savedRegs, r ∉ [Reg.rsp, .rbp] := by decide
  rw [pushes_congr fun r mem => toFramed.regs r (other r mem)] at save
  have bottom : saved.regs .rsp = place base (-72) := savedTop
  obtain ⟨flags, lower⟩ := exec_subRsp saved (frameBytes locals)
  rw [bottom, place_add, toInt_frameBytes reached, ← Int.sub_eq_add_neg] at lower
  have lowered := straight_of_spares (encodable_of_none rfl rfl rfl) lower
    (((Cpu.Spares.refl saved).setReg (show Reg.rsp ∈ [.rsp, .rbp] from .head _) _).setFlags flags)
  refine ⟨_, (toFramed.append (save.mono (by simp))).append lowered, by simp, ?_⟩
  have kept := save.regs .rbp (by decide)
  simp [kept, framed]

def publishCode (locals : Nat) : List Instr :=
  [if locals = 0 then .moveConst .rax 0 else .lea .rax (slot (localSlot (locals - 1))),
    .movRM .rdx (argSlot .localsOut), .movMR (mem .rdx 0) .rax,
    .movRM .rdx (argSlot .localsCount), .movMI (mem .rdx 0) (Int32.ofNat locals),
    .moveConst .rax 0]

/-- Code that clears a local. -/
def clearCode (i : Nat) : List Instr := [.movMR (slot (localSlot i)) .rax]

section

variable (reached : Reached locals) (framePointer : s.regs .rbp = place base (-16))
include reached framePointer

/-- The address of the locals, or 0 if there are none. -/
lemma exec_firstLocal {first : Word}
    (isFirst : first = if locals = 0 then 0
      else place base (-72 - 8 * (localSlot (locals - 1) + 1))) :
    ∃ flags, Straight [if locals = 0 then .moveConst .rax 0
      else .lea .rax (slot (localSlot (locals - 1)))] [.rax, .rdx]
      [] s ((s.setReg .rax first).setFlags flags) := by
  by_cases none : locals = 0
  · simp only [isFirst, if_pos none]
    exact straight_moveConst (.head _) 0 s
  · simp only [isFirst, if_neg none]
    have lt : localSlot (locals - 1) < frameSlots locals := Nat.add_lt_add_left (by omega) _
    refine ⟨s.flags, straight_of_spares (encodable_of_none rfl rfl rfl) ?_
      ((Cpu.Spares.refl s).setReg (.head _) _)⟩
    exact congrArg (fun w => Except.ok (s.setReg .rax w))
      (address_slot_place framePointer (reached_of_lt reached lt))

/-- The locals are published where two arguments point. -/
lemma exec_publishCode (out count : Word) {first : Word}
    (isFirst : first = if locals = 0 then 0
      else place base (-72 - 8 * (localSlot (locals - 1) + 1)))
    (hasOut : ByteMemory.readWord s.memory
      (place base (-72 - 8 * (FrameSlot.localsOut.index + 1))) = out)
    (hasCount : (ByteMemory.writeWord s.memory out first).readWord
      (place base (-72 - 8 * (FrameSlot.localsCount.index + 1))) = count) :
    ∃ t, Straight (publishCode locals) [.rax, .rdx] [(out, first), (count, Word.ofNat locals)] s t ∧
      t.regs .rax = 0 := by
  have number : (Int32.ofNat locals).toInt64 = Word.ofNat locals := by
    unfold Reached frameSlots at reached
    rw [toInt64_eq_ofInt, Int32.toInt_ofNat_of_lt (by omega)]
    rfl
  have address (s : Cpu) : s.address (mem .rdx 0) = s.regs .rdx :=
    (address_mem s .rdx 0).trans (place_zero _)
  obtain ⟨flags, find⟩ := exec_firstLocal reached framePointer isFirst
  have point := find.append (straight_movRM (r := .rdx) (encodable_of_none rfl rfl rfl) (by simp)
    (address_slot_place (by simp [framePointer]) (index_reached .localsOut)) hasOut)
  have store := point.append (straight_movMR (r := .rax) _ (encodable_of_none rfl rfl rfl)
    (address _) (show _ = first by simp))
  have framed := (store.regs .rbp (by decide)).trans framePointer
  have toCount := store.append (straight_movRM (r := .rdx) (encodable_of_none rfl rfl rfl) (by simp)
    (address_slot_place framed (index_reached .localsCount)) hasCount)
  have put {s : Cpu} (points : s.regs .rdx = count) :
      (Instr.movMI (mem .rdx 0) (Int32.ofNat locals)).exec s =
        .ok (s.write .word count (Word.ofNat locals)) := by
    show Except.ok (Cpu.write _ .word _ (Int32.ofNat locals).toInt64) = _
    rw [number, address, points]
  have write := toCount.append (straight_store _ (encodable_of_none rfl rfl rfl) (put (by simp)))
  obtain ⟨flags', clear⟩ := straight_moveConst (show Reg.rax ∈ [.rax, .rdx] from .head _) 0 _
  refine ⟨_, write.append clear, by simp⟩

lemma exec_clear (zero : s.regs .rax = 0) :
    ∃ t, Straight ((List.range locals).flatMap clearCode) []
      ((List.range locals).flatMap fun i => [(place base (-72 - 8 * (localSlot i + 1)), 0)]) s
        t := by
  refine Straight.exists_each fun i mem {_ t} _ written => ?_
  have lt : localSlot i < frameSlots locals := Nat.add_lt_add_left (List.mem_range.1 mem) localsBase
  have framed : t.regs .rbp = place base (-16) :=
    (written.regs .rbp List.not_mem_nil).trans framePointer
  exact ⟨_, straight_movMR [] (encodable_of_none rfl rfl rfl)
    (address_slot_place framed (reached_of_lt reached lt))
      ((written.regs .rax List.not_mem_nil).trans zero)⟩

end

lemma prologue_eq (abi : Abi) (locals : Nat) : prologue abi locals =
    enterCode locals ++ (FrameSlot.all.flatMap (storeArg abi) ++
      (publishCode locals ++ (List.range locals).flatMap clearCode)) := by
  simp only [prologue, enterCode, publishCode, storeArgs_eq, List.map_eq_flatMap, List.append_assoc]
  rfl

lemma openingParts (abi : Abi) (addresses : Addresses) (reached : Reached locals) :
    (frameModel abi addresses).OpeningParts locals Performs (enterCode locals) (storeArg abi)
      (publishCode locals) ((List.range locals).flatMap clearCode) abi.argRegs [.rsp, .rbp] [.rax]
      [.rax, .rdx] abi.shadowBytes fun t => t.regs .rax = 0 where
  argument _ _ := rfl
  shadow_le := by cases abi <;> decide
  apart := by cases abi <;> decide
  scratch_subset := by simp
  pointed written pointed :=
    ⟨(written.regs .rsp (by decide)).trans pointed.1,
      (written.regs .rbp (by decide)).trans pointed.2⟩
  enter s := by
    obtain ⟨t, enters, stackPointer, framePointer⟩ :=
      exec_enterCode reached (stackPointer_eq_place abi addresses s)
    refine ⟨t, ?_, stackPointer.trans (congrArg (place _) ?_), framePointer⟩
    · show Straight _ _ (((pushes (-8) (.rbp :: savedRegs)).map fun p => (p.1, s.regs p.2)).map _) s
        t
      rw [List.map_map]
      exact enters
    · show _ = -((72 + 8 * (frameSlots locals + (frameSlots locals + 1) % 2) : Nat) : Int)
      omega
  store arg {_ _} pointed := exec_storeArg abi arg pointed.framePointer
  publish pointed hasOut hasCount := exec_publishCode reached pointed.framePointer _ _ rfl hasOut
    (hasCount _)
  clear pointed zero := by
    obtain ⟨t, clears⟩ := exec_clear reached pointed.framePointer zero
    refine ⟨t, ?_⟩
    rw [FrameModel.zeros, List.map_map, List.map_eq_flatMap]
    exact clears.mono (List.nil_subset _)

/-! ### Calls -/

lemma toInt_add_eight (low : 0 ≤ disp.toInt) (high : disp.toInt ≤ 2 ^ 20) :
    (disp + 8).toInt = disp.toInt + 8 := by
  have eight : (8 : Int32).toInt = 8 := by decide
  rw [Int32.toInt_add, eight, Int.bmod_eq_of_le (by omega) (by omega)]

/-- Arguments on the stack are stored into the area of the call. -/
lemma exec_passOnStack (s : Cpu) (ip : Word) {area : Nat} (low : 0 ≤ disp.toInt)
    (high : disp.toInt + 8 * (args.length + 1) ≤ area) (small : area ≤ 2 ^ 20) :
    ∃ t writes, Straight (passOnStack ip args disp) [.rax] writes s t ∧
      ∀ p ∈ writes, ∃ k : Int, p.1 = place (s.regs .rsp) k ∧ 0 ≤ k ∧ k + 8 ≤ area := by
  induction args generalizing s disp with
  | nil =>
    refine ⟨s.write .word (place (s.regs .rsp) disp.toInt) ip.toInt32.toInt64, _,
      straight_store _ (encodable_of_none rfl rfl rfl) ?_,
        List.forall_mem_singleton.2 ⟨_, rfl, low, ?_⟩⟩
    · rw [← address_mem]
      rfl
    · simpa using high
  | cons arg rest ih =>
    rw [List.length_cons] at high
    have next := toInt_add_eight low (by omega)
    have load := straight_movRM (s := s) (m := argSlot arg) (encodable_of_none rfl rfl rfl)
      (List.mem_singleton_self .rax) rfl rfl
    have first := load.append (straight_movMR (r := .rax) _ (encodable_of_none rfl rfl rfl)
      (address_mem _ .rsp disp) rfl)
    have same := first.regs .rsp (by decide)
    obtain ⟨t, writes, second, inside⟩ := ih _ (show 0 ≤ (disp + 8).toInt by omega) (by omega)
    refine ⟨t, _, first.append second, List.forall_mem_append.2 ⟨?_, same ▸ inside⟩⟩
    exact List.forall_mem_singleton.2 ⟨disp.toInt, rfl, low, by omega⟩

/-- Code that puts arguments in registers. -/
def passInRegs (abi : Abi) (tag address : Word) : List Instr :=
  ((abi.argRegs.zip [tag, address]).map fun (reg, value) => .moveConst reg value) ++
    ((abi.argRegs.drop 2).zip abi.regPassed).map fun (reg, arg) => .movRM reg (argSlot arg)

/-- Code up to a call of the runtime. -/
def callLead (abi : Abi) (entry tag address ip : Word) : List Instr :=
  [.aluRI .sub .rsp abi.callArea.1] ++ (passOnStack ip abi.stackPassed abi.callArea.2 ++
    (passInRegs abi tag address ++ [.movImm64 .rax entry]))

/-- Code after it. -/
def callTail (abi : Abi) : List Instr :=
  [.aluRI .add .rsp abi.callArea.1, .movRM .rax (argSlot .context), .aluMI .cmp (mem .rax 0) 0]

lemma callRuntime_eq (abi : Abi) (entry tag address ip : Word) (onHalt : JumpTarget) :
    callRuntime abi entry tag address ip onHalt =
      Step.plain (callLead abi entry tag address ip) ++ [⟨.call .rax, none⟩] ++
        Step.plain (callTail abi) ++ [Step.branch .ne onHalt] := by
  simp [callRuntime, callLead, passInRegs, callTail, Step.plain]

/-- Moves the stack pointer up. -/
lemma exec_addRsp (s : Cpu) (imm : Int32) : ∃ flags, (Instr.aluRI .add .rsp imm).exec s =
    .ok ((s.setReg .rsp (place (s.regs .rsp) imm.toInt)).setFlags flags) :=
  ⟨_, congrArg (fun w => Except.ok ((s.setReg .rsp (s.regs .rsp + w)).setFlags _))
    (toInt64_eq_ofInt imm)⟩

lemma exec_passInRegs (abi : Abi) (tag address : Word) (s : Cpu) :
    ∃ t, Straight (passInRegs abi tag address) (.rax :: abi.argRegs) [] s t := by
  refine Straight.exists_quiet (fun i mem s => ?_) s
  rcases List.mem_append.1 mem with constant | loaded
  · obtain ⟨⟨reg, value⟩, inZip, rfl⟩ := List.mem_map.1 constant
    obtain ⟨flags, run⟩ := straight_moveConst (.tail _ (List.of_mem_zip inZip).1) value s
    exact ⟨_, run⟩
  · obtain ⟨⟨reg, arg⟩, inZip, rfl⟩ := List.mem_map.1 loaded
    exact ⟨_, straight_movRM (encodable_of_none rfl rfl rfl)
      (.tail _ (List.mem_of_mem_drop (List.of_mem_zip inZip).1)) rfl rfl⟩

lemma toNat_callArea (abi : Abi) : (abi.callArea.1.toInt.toNat : Int) = abi.callArea.1.toInt := by
  cases abi <;> decide

/-- The arguments of a call are put in registers and in the area below the frame. -/
lemma exec_callLead (abi : Abi) (addresses : Addresses) (entry tag address ip : Word) (s : Cpu) :
    ∃ t, Performs (callLead abi entry tag address ip) s t ∧
      t.regs .rsp = place (s.regs .rsp) (-abi.callArea.1.toInt.toNat) ∧ t.regs .rbp = s.regs .rbp ∧
      (∀ x, x ∉ writtenXmms abi → t.xmms x = s.xmms x) ∧
      ∀ a, a ∉ ByteMemory.span (t.regs .rsp) abi.callArea.1.toInt.toNat →
      t.memory a = s.memory a := by
  obtain ⟨flags, lower⟩ := exec_subRsp s abi.callArea.1
  let lowered := (s.setReg .rsp (place (s.regs .rsp) (-abi.callArea.1.toInt))).setFlags flags
  have lowers := straight_of_spares (encodable_of_none rfl rfl rfl) lower
    (((Cpu.Spares.refl s).setReg (List.mem_singleton_self .rsp) _).setFlags flags)
  obtain ⟨passed, writes, pass, inside⟩ := exec_passOnStack lowered ip
    (show 0 ≤ abi.callArea.2.toInt by cases abi <;> decide)
    (show abi.callArea.2.toInt + 8 * (abi.stackPassed.length + 1) ≤
    abi.callArea.1.toInt.toNat by cases abi <;> decide) (by cases abi <;> decide)
  obtain ⟨named, name⟩ := exec_passInRegs abi tag address passed
  have point := straight_of_spares (i := .movImm64 .rax entry) (encodable_of_none rfl rfl rfl) rfl
    ((Cpu.Spares.refl named).setReg (show Reg.rax ∈ .rax :: abi.argRegs from .head _) entry)
  have passes := (pass.mono (by simp)).append (name.append point)
  have noPointer : .rsp ∉ .rax :: abi.argRegs ∧ .rbp ∉ .rax :: abi.argRegs := by
    cases abi <;> decide
  refine ⟨_, FrameModel.calls_of_straight (m := frameModel abi addresses) lowers passes ?_ ?_
    ⟨passes.regs .rsp noPointer.1, passes.regs .rbp noPointer.2⟩
    (List.forall_mem_append.2 ⟨inside, List.forall_mem_nil _⟩) ?_⟩
  · show lowered.regs .rsp = place (s.regs .rsp) (-(abi.callArea.1.toInt.toNat : Int))
    rw [toNat_callArea]
    simp [lowered]
  · exact lowers.regs .rbp (by decide)
  · show abi.callArea.1.toInt.toNat ≤ _
    cases abi <;> decide

lemma exec_callTail (abi : Abi) (s : Cpu) :
    ∃ t, Performs (callTail abi) s t ∧
    t.regs .rsp = place (s.regs .rsp) abi.callArea.1.toInt.toNat ∧
      t.regs .rbp = s.regs .rbp ∧ t.xmms = s.xmms ∧ t.memory = s.memory := by
  obtain ⟨flags, raise⟩ := exec_addRsp s abi.callArea.1
  refine ⟨_, ⟨by cases abi <;> decide, (execAll_cons raise _).trans rfl⟩, ?_, rfl, rfl, rfl⟩
  rw [toNat_callArea]
  rfl

/-! ### Closing a frame -/

/-- Code up to the return. -/
def leaveCode : List Instr :=
  .lea .rsp (mem .rbp (-savedBytes)) :: (savedRegs.reverse ++ [Reg.rbp]).map .pop

lemma mem_pushes_of_mem_pops : ∀ p ∈ pops (-72) (savedRegs.reverse ++ [.rbp]), p ∈ pushes (-8)
    (.rbp :: savedRegs) := by
  decide

/-- Saved registers come back, and the stack pointer is at the return address. -/
lemma exec_leaveCode (framePointer : s.regs .rbp = place base (-16)) {value : Reg → Word}
    (saved : ∀ p ∈ pushes (-8) (.rbp :: savedRegs), ByteMemory.readWord s.memory (place base p.1) =
      value p.2) :
    ∃ t, Performs leaveCode s t ∧ t.regs .rsp = place base (-8) ∧
    (∀ r ∈ .rbp :: savedRegs, t.regs r = value r) ∧
      t.xmms = s.xmms ∧ t.memory = s.memory := by
  let raised := s.setReg .rsp (place base (-72))
  have raise : (Instr.lea .rsp (mem .rbp (-savedBytes))).exec s = .ok raised := by
    have address : s.address (mem .rbp (-savedBytes)) = place base (-72) := by
      rw [address_mem, framePointer, place_add]
      rfl
    exact congrArg (fun w => Except.ok (s.setReg .rsp w)) address
  have top : raised.regs .rsp = place base (-72) := by simp [raised]
  obtain ⟨t, stackPointer, values, pop⟩ := exec_pops (savedRegs.reverse ++ [.rbp]) (by decide)
    (by decide) top
  refine ⟨t, ⟨by decide, (execAll_cons raise _).trans pop.run.2⟩, stackPointer, fun r mem => ?_,
    pop.floats, pop.memory⟩
  have popped : ∀ r ∈ .rbp :: savedRegs, ∃ p ∈ pops (-72) (savedRegs.reverse ++ [.rbp]),
    p.2 = r := by decide
  obtain ⟨p, inPops, rfl⟩ := popped r mem
  rw [values p inPops]
  exact saved p (mem_pushes_of_mem_pops p inPops)

/-! ### Code -/

/-- Instructions in a row, wherever they stand. -/
lemma runs_plain {instrs : List Instr} (performs : Performs instrs s t) :
    (frameModel abi addresses).runs ((Step.plain instrs).map Step.piece) s t := by
  intro code start stand
  rw [Piece.flatMap_plain fun _ => rfl] at stand ⊢
  exact Runs.block performs.1 stand performs.2

lemma frameModel_lawful (abi : Abi) (addresses : Addresses) (reached : Reached locals) :
    (frameModel abi addresses).Lawful locals where
  toFits := frameModel_fits abi addresses reached
  slotAddress {_ _} _ framePointer i lt :=
    address_slot_place framePointer (reached_of_lt reached lt)
  opens := by
    have short : locals < UInt32.size := by
      unfold Reached frameSlots at reached
      unfold UInt32.size
      omega
    refine ⟨(Step.plain (prologue abi (layoutLocals locals))).map Step.piece, fun _ => rfl,
      fun {s} entry => ?_⟩
    rw [layoutLocals_of_lt short, prologue_eq]
    obtain ⟨t, run, pointed, xmms, memory⟩ :=
      (openingParts abi addresses reached).exists_opened
        (frameModel_fits abi addresses reached) entry
    exact ⟨t, runs_plain run, pointed.1, pointed.2, fun x _ => congrFun xmms x, memory⟩
  calls tag address ip onHalt := by
    refine ⟨(Step.plain (callLead abi addresses.runtime tag address ip)).map Step.piece,
      (Step.plain (callTail abi)).map Step.piece, Step.piece (Step.branch .ne onHalt),
      fun pool => ?_, fun u => ?_, fun w => ?_⟩
    · show Except.ok ((callRuntime abi addresses.runtime tag address ip onHalt).map Step.piece,
        pool) = _
      rw [callRuntime_eq, List.map_append, List.map_append, List.map_append]
      rfl
    · obtain ⟨v, run, rest⟩ := exec_callLead abi addresses addresses.runtime tag address ip u
      exact ⟨v, runs_plain run, rest⟩
    · obtain ⟨x, run, stackPointer, framePointer, xmms, memory⟩ := exec_callTail abi w
      exact ⟨x, runs_plain run, stackPointer, framePointer, fun y _ => congrFun xmms y, memory⟩
  closes := by
    refine ⟨(Step.plain leaveCode).map Step.piece, fun _ => rfl,
      fun {s u} framePointer saved floats => ?_⟩
    have pushed (p : Int × Reg) (mem : p ∈ pushes (-8) (.rbp :: savedRegs)) :
        ByteMemory.readWord u.memory (place (place (s.regs .rsp) 8) p.1) = s.regs p.2 :=
      saved (p.1, s.regs p.2) (List.mem_append_left _ (List.mem_map.2 ⟨p, mem, rfl⟩))
    obtain ⟨v, run, stackPointer, values, xmms, memory⟩ := exec_leaveCode framePointer pushed
    have top : v.regs .rsp = s.regs .rsp :=
      stackPointer.trans (stackPointer_eq_place abi addresses s).symm
    refine ⟨v, runs_plain run, top, values .rbp (.head _), fun r mem => ?_, fun x belongs => ?_, ?_⟩
    · have listed : ∀ r ∈ abi.calleeSaved, r ∈ .rbp :: savedRegs := by cases abi <;> decide
      exact values r (listed r mem)
    · have low : ∀ x ∈ writtenXmms abi, x.num < 6 := by cases abi <;> decide
      have notWritten : x ∉ writtenXmms abi :=
        fun mem => absurd (low x mem) (Nat.not_lt.2 belongs.2)
      exact (congrFun xmms x).trans (floats x notWritten)
    · have kept := saved (-8, _) (List.mem_append_right _ (.head _))
      show ByteMemory.readWord v.memory (v.regs .rsp) = ByteMemory.readWord s.memory (s.regs .rsp)
      rw [memory, stackPointer]
      refine kept.trans (congrArg (ByteMemory.readWord s.memory) ?_)
      rw [← stackPointer, top]

end StackMachine.X64
