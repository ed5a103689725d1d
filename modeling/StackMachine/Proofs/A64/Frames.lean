import StackMachine.Proofs.Native.FrameModel
import StackMachine.Proofs.A64.Selection

/-!
# Frames on AArch64

From the stack pointer of the caller downwards a frame has the return address and the frame pointer
of the caller, five pairs of registers, four pairs of float registers, and the slots, of which the
first is the lowest.  Eight entry arguments come in registers and the others above the stack pointer
of the caller.

What code does to a state is said by the words it writes (`Straight`).  Registers of both kinds are
saved and restored in pairs (`RegPair`), so one statement over the pairs is about both
(`exec_saves`, `exec_restores`).  The offsets of loads and stores reach `maxFrameSlots` slots.
-/

namespace StackMachine.A64

open Native
open ByteMemory (place place_add place_zero)

variable {addresses : Addresses} {s t u : Cpu} {base : Word} {rt rn : Reg} {index locals : Nat}
  {r dst a b : Reg} {p : RegPair} {pairs : List (Nat × RegPair)} {spared : List Reg}
  {code : List Instr}

/-! ### Straight code -/

/-- Instructions take one state to another. -/
def Performs (code : List Instr) (s t : Cpu) : Prop := execAll Instr.exec s code = some t

instance : Sequential Performs where
  nil _ := rfl
  append first second := (execAll_append_of_eq first _).trans second

/-- Code writes to some registers, to the flags and to words in memory. -/
abbrev Straight : List Instr → List Reg → List (Word × Word) → Cpu → Cpu → Prop :=
  Native.Straight Performs Cpu.regs Cpu.doubles Cpu.memory

lemma straight_of_spares (run : execAll Instr.exec s code = some t) (spares : s.Spares spared t) :
    Straight code spared [] s t :=
  ⟨spares, run⟩

/-! ### Single instructions -/

lemma regs_setReg_of_ne (s : Cpu) {r' : Reg} (ne : r' ≠ r) (value : Word) :
    (s.setReg r value).regs r' = s.regs r' := by
  rw [Cpu.setReg_regs, Function.update_of_ne ne]

lemma regs_setReg_self (s : Cpu) (r : Reg) (value : Word) : (s.setReg r value).regs r = value := by
  rw [Cpu.setReg_regs, Function.update_self]

/-- A load of a word at a place above a base register. -/
lemma straight_ldr {b : Reg} {a value : Word} (mem : dst ∈ spared) (general : dst ≠ Reg.zr)
    (reached : index < maxFrameSlots)
    (address : place (s.regs b) (8 * index) = a) (holds : s.memory.readWord a = value) :
    Straight [.ldr dst b (slotOffset index)] spared [] s (s.setReg dst value) := by
  refine straight_of_spares ((execAll_singleton _ _ _).trans ?_) ((Cpu.Spares.refl s).setReg mem _)
  rw [← holds, ← address]
  exact exec_ldr s b general reached

/-- A store of a word at a place above a base register. -/
lemma straight_str {b : Reg} {a value : Word} (spared : List Reg) (reached : index < maxFrameSlots)
    (address : place (s.regs b) (8 * index) = a) (holds : s.get rt = value) :
    Straight [.str rt b (slotOffset index)] spared [(a, value)] s (s.store a value) := by
  refine ⟨⟨fun _ _ => rfl, rfl, rfl⟩, (execAll_singleton _ _ _).trans ?_⟩
  rw [Instr.exec_eq rfl, slotOffset_field reached, Form.exec, if_neg (by decide), ← address,
    ← holds]
  rfl

lemma straight_moveConst (mem : dst ∈ spared) (general : dst ≠ Reg.zr) (value : Word) (s : Cpu) :
    Straight (moveConst dst value) spared [] s (s.setReg dst value) :=
  straight_of_spares (exec_moveConst general value s) ((Cpu.Spares.refl s).setReg mem _)

lemma pairOffset_field {n : Nat} (lt : n < 9) :
    8 * ((pairOffset n) / 8).toInt.bmod (2 ^ 7) = -16 * (n + 1) := by
  revert n
  decide

lemma exec_movSp (s : Cpu) (rd rn : Reg) :
    (Instr.movSp rd rn).exec s = some (s.setReg rd (s.regs rn)) := by
  rw [Instr.movSp, Instr.exec_eq rfl, Form.exec]
  simp only [addSub_fst, Bool.false_eq_true, if_false]
  exact congrArg (fun w => some (s.setReg rd w)) (Int64.add_zero _)

lemma writes_storePair (spared : List Reg) (s : Cpu) (k : Int) (first second : Word) :
    Writes Cpu.regs Cpu.doubles Cpu.memory spared
      [(place base k, first), (place base (k + 8), second)] s
        (s.storePair (place base k) first second) := by
  have next : place base (k + 8) = place base k + 8 := (place_add base k 8).symm
  rw [next]
  exact ⟨fun _ _ => rfl, rfl, rfl⟩

variable {n : Nat} {bottom : Int}

lemma exec_stp (s : Cpu) (a b : Reg) (lt : n < 9) : (Instr.stp a b .fp (pairOffset n)).exec s =
    some (s.storePair (place (s.regs .fp) (-16 * (n + 1))) (s.get a) (s.get b)) := by
  rw [Instr.exec_eq rfl, pairOffset_field lt]
  rfl

lemma exec_stpD (s : Cpu) {a b : DReg} (small : a.id &&& 0x1F = a.id ∧ b.id &&& 0x1F = b.id)
    (lt : n < 9) :
    (Instr.stpD a b .fp (pairOffset n)).exec s =
      some (s.storePair (place (s.regs .fp) (-16 * (n + 1))) (s.doubles a) (s.doubles b)) := by
  rw [Instr.exec_eq rfl, pairOffset_field lt, small.1, small.2]
  rfl

lemma loadPair_eq (s : Cpu) (general : a ≠ Reg.zr ∧ b ≠ Reg.zr) (k : Int) :
    s.loadPair a b (place base k) = (s.setReg a (s.memory.readWord (place base k))).setReg b
      (s.memory.readWord (place base (k + 8))) := by
  have second : place base k + 8 = place base (k + 8) := place_add base k 8
  rw [Cpu.loadPair, Cpu.put_of_ne general.1, Cpu.put_of_ne general.2, second]

lemma exec_ldp (s : Cpu) (general : a ≠ Reg.zr ∧ b ≠ Reg.zr) (lt : n < 9) :
    (Instr.ldp a b .fp (pairOffset n)).exec s =
      some ((s.setReg a (s.memory.readWord (place (s.regs .fp) (-16 * (n + 1))))).setReg b
        (s.memory.readWord (place (s.regs .fp) (-16 * (n + 1) + 8)))) := by
  rw [← loadPair_eq s general, Instr.exec_eq rfl, pairOffset_field lt, Form.exec, if_pos rfl,
    if_pos rfl, if_neg (by decide)]
  rfl

lemma exec_ldpD (s : Cpu) {a b : DReg} (small : a.id &&& 0x1F = a.id ∧ b.id &&& 0x1F = b.id)
    (lt : n < 9) :
    (Instr.ldpD a b .fp (pairOffset n)).exec s =
      some ((s.setDouble a (s.memory.readWord (place (s.regs .fp) (-16 * (n + 1))))).setDouble b
        (s.memory.readWord (place (s.regs .fp) (-16 * (n + 1) + 8)))) := by
  rw [Instr.exec_eq rfl, pairOffset_field lt, small.1, small.2, ← place_add]
  rfl

/-! ### The stack pointer -/

lemma setReg_self (s : Cpu) (r : Reg) : s.setReg r (s.regs r) = s := by
  rw [Cpu.setReg, Function.update_eq_self]

/-- One step of the stack pointer. -/
def adjustStep (grow : Bool) (n : Nat) : Instr :=
  if grow then .subImm .sp .sp (UInt16.ofNat n) else .addImm .sp .sp (UInt16.ofNat n)

/-- How far it goes. -/
def adjustment : Bool → Nat → Int
  | true, n => -n
  | false, n => n

lemma exec_adjustStep (grow : Bool) (small : n < 4096) (s : Cpu) :
    (adjustStep grow n).exec s = some (s.setReg .sp (place (s.regs .sp) (adjustment grow n))) := by
  have field : (UInt16.ofNat n).toNat % 2 ^ 12 = n := by
    rw [UInt16.toNat_ofNat_of_lt' (Nat.lt_of_lt_of_le small (by decide)),
      Nat.mod_eq_of_lt (by omega)]
  cases grow with
  | true =>
    rw [adjustStep, if_pos rfl, Instr.exec_eq rfl, Form.exec, field]
    simp only [addSub_fst, Bool.false_eq_true, if_true, if_false]
    exact congrArg (fun w => some (s.setReg .sp w)) (ByteMemory.sub_ofInt _ n)
  | false =>
    rw [adjustStep, if_neg Bool.false_ne_true, Instr.exec_eq rfl, Form.exec, field]
    simp only [addSub_fst, Bool.false_eq_true, if_false]
    rfl

lemma execAll_replicate {i : Instr} {k : Int}
    (move : ∀ s : Cpu, i.exec s = some (s.setReg .sp (place (s.regs .sp) k))) (count : Nat)
    (s : Cpu) :
    execAll Instr.exec s (List.replicate count i) =
      some (s.setReg .sp (place (s.regs .sp) (count * k))) := by
  induction count generalizing s with
  | zero =>
    have stays : place (s.regs .sp) ((0 : Nat) * k) = s.regs .sp := by
      rw [Int.natCast_zero, Int.zero_mul, place_zero]
    rw [stays, setReg_self]
    rfl
  | succ count ih =>
    have total : k + count * k = (count + 1 : Nat) * k := by
      rw [Int.natCast_add, Int.add_mul, Int.natCast_one, Int.one_mul, Int.add_comm]
    rw [List.replicate_succ, execAll_cons (move s), ih, setReg_setReg, Cpu.setReg_regs,
      Function.update_self, place_add, total]

/-- The stack pointer is moved in steps. -/
lemma exec_adjustSp (bytes : Nat) (grow : Bool) (s : Cpu) :
    execAll Instr.exec s (adjustSp bytes grow) =
      some (s.setReg .sp (place (s.regs .sp) (adjustment grow bytes))) := by
  have split : adjustSp bytes grow = List.replicate (bytes / 4080) (adjustStep grow 4080) ++
      if bytes % 4080 = 0 then [] else [adjustStep grow (bytes % 4080)] := rfl
  have total : (bytes / 4080 : Nat) * adjustment grow 4080 + adjustment grow (bytes % 4080) =
      adjustment grow bytes := by
    cases grow <;> simp only [adjustment] <;> omega
  have steps := execAll_replicate (exec_adjustStep grow (by omega : 4080 < 4096)) (bytes / 4080) s
  rw [split, execAll_append_of_eq steps]
  by_cases done : bytes % 4080 = 0
  · have none : adjustment grow (bytes % 4080) = 0 := by rw [done]; cases grow <;> rfl
    rw [if_pos done, ← total, none, Int.add_zero]
    rfl
  · rw [if_neg done, execAll_singleton, exec_adjustStep grow (by omega), setReg_setReg,
      Cpu.setReg_regs, Function.update_self, place_add, total]

/-! ### Saved registers -/

/-- Two registers of the same kind. -/
abbrev RegPair := (Reg × Reg) ⊕ (DReg × DReg)

namespace RegPair

def parts : RegPair → (Reg ⊕ DReg) × (Reg ⊕ DReg)
  | .inl (a, b) => (.inl a, .inl b)
  | .inr (a, b) => (.inr a, .inr b)

def members (p : RegPair) : List (Reg ⊕ DReg) := [p.parts.1, p.parts.2]

/-- Stores a pair at a place below the frame pointer. -/
def save (n : Nat) : RegPair → Instr
  | .inl (a, b) => .stp a b .fp (pairOffset n)
  | .inr (a, b) => .stpD a b .fp (pairOffset n)

/-- Loads it from there. -/
def restore (n : Nat) : RegPair → Instr
  | .inl (a, b) => .ldp a b .fp (pairOffset n)
  | .inr (a, b) => .ldpD a b .fp (pairOffset n)

/-- Registers that an instruction can name. -/
def Named : RegPair → Prop
  | .inl (a, b) => a ≠ Reg.zr ∧ b ≠ Reg.zr
  | .inr (a, b) => a.id &&& 0x1F = a.id ∧ b.id &&& 0x1F = b.id

instance : DecidablePred Named
  | .inl _ => inferInstanceAs (Decidable (_ ∧ _))
  | .inr _ => inferInstanceAs (Decidable (_ ∧ _))

end RegPair

/-- The pairs that a method preserves. -/
def keptPairs : List RegPair := savedPairs.map .inl ++ savedFloatPairs.map .inr

/-- The value of a register of either kind. -/
def Cpu.value (s : Cpu) : Reg ⊕ DReg → Word := Sum.elim s.regs s.doubles

lemma exec_save (s : Cpu) (named : p.Named) (lt : n < 9) : (p.save n).exec s =
    some (s.storePair (place (s.regs .fp) (-16 * (n + 1))) (s.value p.parts.1)
      (s.value p.parts.2)) := by
  rcases p with ⟨a, b⟩ | ⟨a, b⟩
  · have values : s.get a = s.regs a ∧ s.get b = s.regs b :=
      ⟨Cpu.get_of_ne named.1, Cpu.get_of_ne named.2⟩
    rw [RegPair.save, exec_stp s a b lt, values.1, values.2]
    rfl
  · exact exec_stpD s named lt

lemma exec_restore (s : Cpu) (named : p.Named) (lt : n < 9) :
    ∃ t, (p.restore n).exec s = some t ∧ t.memory = s.memory ∧ t.value = Function.update
        (Function.update s.value p.parts.1 (s.memory.readWord (place (s.regs .fp) (-16 * (n + 1)))))
        p.parts.2 (s.memory.readWord (place (s.regs .fp) (-16 * (n + 1) + 8))) := by
  rcases p with ⟨a, b⟩ | ⟨a, b⟩
  · refine ⟨_, exec_ldp s named lt, rfl, ?_⟩
    simp only [Cpu.value, RegPair.parts, Sum.update_elim_inl]
    rfl
  · refine ⟨_, exec_ldpD s named lt, rfl, ?_⟩
    simp only [Cpu.value, RegPair.parts, Sum.update_elim_inr]
    rfl

/-- The distance of a pair from the pointer 16 bytes above the frame pointer. -/
def pairDistance (n : Nat) : Int := -16 * (n + 2)

lemma place_pair (framePointer : s.regs .fp = place base (-16)) (n : Nat) :
    place (s.regs .fp) (-16 * (n + 1)) = place base (pairDistance n) := by
  rw [framePointer, place_add, pairDistance]
  exact congrArg (place base) (by omega)

/-- The words of pairs, at their distances. -/
def pairWords (value : Reg ⊕ DReg → Word) (pairs : List (Nat × RegPair)) : List (Int × Word) :=
  pairs.flatMap fun p => [(pairDistance p.1, value p.2.parts.1),
    (pairDistance p.1 + 8, value p.2.parts.2)]

lemma pairWords_cons (value : Reg ⊕ DReg → Word) (p : Nat × RegPair) (rest : List (Nat × RegPair)) :
    pairWords value (p :: rest) = (pairDistance p.1, value p.2.parts.1) ::
      (pairDistance p.1 + 8, value p.2.parts.2) :: pairWords value rest := rfl

lemma exec_saves (named : ∀ p ∈ pairs, p.2.Named) (near : ∀ p ∈ pairs, p.1 < 9)
    (framePointer : s.regs .fp = place base (-16)) :
    ∃ t, Straight (pairs.flatMap fun p => [p.2.save p.1]) []
      ((pairWords s.value pairs).map fun p => (place base p.1, p.2)) s t := by
  rw [pairWords, List.map_flatMap]
  refine Straight.exists_each fun p mem {_ t} _ written => ?_
  have same : t.value = s.value :=
    congrArg₂ Sum.elim (funext fun r => written.regs r List.not_mem_nil) written.floats
  have save := exec_save t (named p mem) (near p mem)
  rw [place_pair ((written.regs .fp List.not_mem_nil).trans framePointer), same] at save
  exact ⟨_, writes_storePair [] t (pairDistance p.1) _ _, (execAll_singleton _ _ _).trans save⟩

/-- Pairs are loaded: their registers get the values that were saved, and others keep theirs. -/
lemma exec_restores (wanted : Reg ⊕ DReg → Word) (named : ∀ p ∈ pairs, p.2.Named)
    (near : ∀ p ∈ pairs, p.1 < 9) (noPointer : ∀ p ∈ pairs, .inl .fp ∉ p.2.members)
    (framePointer : s.regs .fp = place base (-16))
    (saved : ∀ q ∈ pairWords wanted pairs, s.memory.readWord (place base q.1) = q.2) :
    ∃ t, execAll Instr.exec s (pairs.map fun p => p.2.restore p.1) = some t ∧ t.memory = s.memory ∧
      (∀ p ∈ pairs, ∀ x ∈ p.2.members, t.value x = wanted x) ∧
      ∀ x, (∀ p ∈ pairs, x ∉ p.2.members) → t.value x = s.value x := by
  induction pairs generalizing s with
  | nil => exact ⟨s, rfl, rfl, List.forall_mem_nil _, fun _ _ => rfl⟩
  | cons p rest ih =>
    obtain ⟨namedHere, namedRest⟩ := List.forall_mem_cons.1 named
    obtain ⟨nearHere, nearRest⟩ := List.forall_mem_cons.1 near
    obtain ⟨noPointerHere, noPointerRest⟩ := List.forall_mem_cons.1 noPointer
    rw [pairWords_cons, List.forall_mem_cons, List.forall_mem_cons] at saved
    obtain ⟨first, second, savedRest⟩ := saved
    obtain ⟨loaded, load, memory, values⟩ := exec_restore s namedHere nearHere
    rw [← place_add, place_pair framePointer, place_add, first, second] at values
    have here (x : Reg ⊕ DReg) (mem : x ∈ p.2.members) : loaded.value x = wanted x := by
      rw [values]
      by_cases isSecond : x = p.2.parts.2
      · rw [isSecond, Function.update_self]
      · have isFirst : x = p.2.parts.1 := by simpa [RegPair.members, isSecond] using mem
        rw [Function.update_of_ne isSecond, isFirst, Function.update_self]
    have others (x : Reg ⊕ DReg) (other : x ∉ p.2.members) : loaded.value x = s.value x := by
      simp only [RegPair.members, List.mem_cons, List.not_mem_nil, or_false, not_or] at other
      rw [values, Function.update_of_ne other.2, Function.update_of_ne other.1]
    obtain ⟨t, run, memory', values', others'⟩ := ih namedRest nearRest noPointerRest
      ((others (.inl .fp) noPointerHere).trans framePointer) (memory ▸ savedRest)
    refine ⟨t, ?_, memory'.trans memory, List.forall_mem_cons.2 ⟨fun x mem => ?_, values'⟩,
      fun x notLoaded => ?_⟩
    · rw [List.map_cons, execAll_cons load, run]
    · -- A later pair with the same register loads the same value.
      by_cases later : ∃ p ∈ rest, x ∈ p.2.members
      · obtain ⟨q, inRest, mem'⟩ := later
        exact values' q inRest x mem'
      · rw [others' x fun q inRest mem' => later ⟨q, inRest, mem'⟩, here x mem]
    · obtain ⟨notHere, notLater⟩ := List.forall_mem_cons.1 notLoaded
      rw [others' x notLater, others x notHere]

/-! ### Entry arguments -/

/-- Offsets from two words below the slots on. -/
lemma sixteen_add (k : Nat) : 16 + 8 * UInt32.ofNat k = slotOffset (k + 2) := by
  rw [slotOffset, UInt32.ofNat_add]
  grind

lemma index_lt_maxFrameSlots (arg : FrameSlot) : arg.index + 2 < maxFrameSlots := by
  cases arg <;> decide

lemma exec_storeArg (arg : FrameSlot) (framePointer : s.regs .fp = place base (-16))
    (stackPointer : s.regs .sp = place base bottom) :
    ∃ t, Straight (storeArg arg.index arg) [valueScratch] [(place base (bottom + 8 * arg.index),
      received s.regs s.memory base argRegs 0 arg.index)] s t := by
  have reached := index_lt_maxFrameSlots arg
  have address {t : Cpu} (same : t.regs .sp = s.regs .sp) :
      place (t.regs .sp) (8 * arg.index) = place base (bottom + 8 * arg.index) := by
    rw [same, stackPointer, place_add]
  unfold storeArg received
  cases inRegs : argRegs[arg.index]? with
  | some r =>
    have general : ∀ r ∈ argRegs, r ≠ Reg.zr := by decide
    exact ⟨_, straight_str _ (by omega) (address rfl)
      (Cpu.get_of_ne (general r (List.mem_of_getElem? inRegs)))⟩
  | none =>
    have above : place (s.regs .fp) (8 * (arg.index - argRegs.length + 2 : Nat)) =
        place base (0 + 8 * (arg.index - argRegs.length : Nat)) := by
      rw [framePointer, place_add]
      exact congrArg (place base) (by omega)
    have load := straight_ldr (List.mem_singleton_self valueScratch) (by decide)
      (by omega) above rfl
    rw [← sixteen_add] at load
    refine ⟨_, load.append (straight_str _ (by omega) (address (load.regs .sp (by decide))) ?_)⟩
    rw [Cpu.get_of_ne (by decide)]
    simp

/-! ### The model -/

/-- Frames.  The return address is in a register. -/
def frameModel (addresses : Addresses) : FrameModel Reg DReg Cpu where
  regs := Cpu.regs
  floats := Cpu.doubles
  memory := Cpu.memory
  stackPointer s := s.regs .sp
  framePointer s := s.regs .fp
  returnAddress s := s.regs .lr
  caller s := s.regs .sp
  argument s arg := received s.regs s.memory (s.regs .sp) argRegs 0 arg.index
  slotAddress s index := place (s.regs .sp) (8 * index)
  pushed s := [(-16, s.regs .fp), (-8, s.regs .lr)] ++ pairWords s.value (numbered 0 keptPairs)
  kept := []
  savedBytes := 16 + savedBytes
  slotBytes locals := (8 * frameSlots locals + 15) / 16 * 16
  slotsUp := true
  callBytes := 16
  writable _ := True
  calleeSaved := [.x19, .x20, .x21, .x22, .x23, .x24, .x25, .x26, .x27, .x28, .fp]
  calleeSavedFloats d := 8 ≤ d.id ∧ d.id < 16
  lowers op pieces := ∀ l, (backend addresses).lower l op = .ok (pieces, l)
  runs pieces s t := ∀ code start, 4 ∣ start → Stand code start (pieces.flatMap Piece.bytes) →
    Runs code (start, s) ((start + (pieces.flatMap Piece.bytes).length : Nat), t)
  callPiece := Step.piece ⟨Instr.blr valueScratch, none⟩
  returnPiece := Step.piece ⟨Instr.ret, none⟩

/-- The bytes of a frame, with the frame pointer and the return address. -/
lemma frameModel_frameBytes (addresses : Addresses) (locals : Nat) :
    (frameModel addresses).frameBytes locals = 16 + frameBytes locals := Nat.add_assoc _ _ _

lemma frameModel_fits (addresses : Addresses) (reached : frameSlots locals ≤ maxFrameSlots) :
    (frameModel addresses).Fits locals where
  small := by
    rw [frameModel_frameBytes]
    show 16 + (144 + (8 * frameSlots locals + 15) / 16 * 16) + 16 ≤ _
    unfold maxFrameSlots at reached
    omega
  aligned := by
    rw [frameModel_frameBytes]
    show 16 ∣ 16 + (144 + (8 * frameSlots locals + 15) / 16 * 16)
    omega
  callAligned := Nat.dvd_refl 16
  room := by
    show 8 * frameSlots locals ≤ (8 * frameSlots locals + 15) / 16 * 16
    omega
  savedApart _ := by
    show ([-16, -8, -32, -24, -48, -40, -64, -56, -80, -72, -96, -88, -112, -104, -128, -120, -144,
      -136, -160, -152] :
      List Int).Pairwise FrameModel.Apart
    decide
  savedInside _ := by
    show ∀ k ∈ ([-16, -8, -32, -24, -48, -40, -64, -56, -80, -72, -96, -88, -112, -104, -128, -120,
      -144, -136, -160, -152] : List Int), -160 ≤ k ∧ k + 8 ≤ 0
    decide

/-! ### Opening a frame -/

lemma keptPairs_named : ∀ p ∈ numbered 0 keptPairs, p.2.Named := by decide

lemma keptPairs_near : ∀ p ∈ numbered 0 keptPairs, p.1 < 9 := by decide

/-- The pointers are saved apart from the pairs. -/
lemma ne_pointer_of_kept : ∀ p ∈ numbered 0 keptPairs, ∀ x ∈ p.2.members,
    x ≠ .inl .sp ∧ x ≠ .inl .fp ∧ x ≠ .inl .lr := by decide

lemma pairWords_congr {value value' : Reg ⊕ DReg → Word}
    (same : ∀ p ∈ pairs, ∀ x ∈ p.2.members, value' x = value x) :
    pairWords value' pairs = pairWords value pairs := by
  refine List.flatMap_congr fun p mem => ?_
  rw [same p mem p.2.parts.1 (.head _), same p mem p.2.parts.2 (.tail _ (.head _))]

/-- Code that saves registers and makes room for the slots. -/
def enterCode (locals : Nat) : List Instr :=
  [.stpPre .fp .lr (-16), .movSp .fp .sp] ++ (adjustSp (frameBytes locals) true ++
    (numbered 0 keptPairs).flatMap fun p => [p.2.save p.1])

/-- The frame pointer and the return address are saved. -/
lemma exec_link (s : Cpu) : (Instr.stpPre .fp .lr (-16)).exec s =
    some ((s.storePair (place (s.regs .sp) (-16)) (s.regs .fp) (s.regs .lr)).setReg .sp
      (place (s.regs .sp) (-16))) := by
  rfl

lemma exec_enterCode (addresses : Addresses) (locals : Nat) (s : Cpu) :
    ∃ t, Straight (enterCode locals) [.sp, .fp]
        (((frameModel addresses).pushed s).map ((frameModel addresses).placed s))
        s t ∧ (frameModel addresses).Pointed locals s t := by
  let linked := (s.storePair (place (s.regs .sp) (-16)) (s.regs .fp) (s.regs .lr)).setReg .sp
    (place (s.regs .sp) (-16))
  have linkedTop : linked.regs .sp = place (s.regs .sp) (-16) := by simp [linked]
  let framed := linked.setReg .fp (place (s.regs .sp) (-16))
  have frame : (Instr.movSp .fp .sp).exec linked = some framed := by rw [exec_movSp, linkedTop]
  let lowered := framed.setReg .sp (place (s.regs .sp) (-(frameModel addresses).frameBytes locals))
  have lower : execAll Instr.exec framed (adjustSp (frameBytes locals) true) = some lowered := by
    have framedTop : framed.regs .sp = place (s.regs .sp) (-16) := by
      rw [regs_setReg_of_ne linked (by decide), linkedTop]
    have bottom : -16 + adjustment true (frameBytes locals) = -(frameModel addresses).frameBytes
      locals := by
      rw [frameModel_frameBytes, adjustment]
      omega
    rw [exec_adjustSp, framedTop, place_add, bottom]
  have loweredFrame : lowered.regs .fp = place (s.regs .sp) (-16) := by simp [lowered, framed]
  have moved : (s.storePair (place (s.regs .sp) (-16)) (s.regs .fp) (s.regs .lr)).Spares
    [.sp, .fp] lowered :=
    (((Cpu.Spares.refl _).setReg (.head _) _).setReg (by simp) _).setReg (.head _) _
  have toLowered : Straight ([.stpPre .fp .lr (-16), .movSp .fp .sp] ++ adjustSp (frameBytes locals)
      true) [.sp, .fp] [(place (s.regs .sp) (-16), s.regs .fp),
        (place (s.regs .sp) (-16 + 8), s.regs .lr)] s lowered :=
    ⟨(writes_storePair [.sp, .fp] s (-16) _ _).trans ⟨moved.regs, moved.floats, moved.memory⟩,
      (execAll_cons (exec_link s) _).trans ((execAll_cons frame _).trans lower)⟩
  obtain ⟨t, save⟩ := exec_saves keptPairs_named keptPairs_near loweredFrame
  have same : pairWords lowered.value (numbered 0 keptPairs) = pairWords s.value
    (numbered 0 keptPairs) := by
    refine pairWords_congr fun p mem x inPair => ?_
    obtain ⟨notStack, notFrame, -⟩ := ne_pointer_of_kept p mem x inPair
    rcases x with r | d
    · rw [ne_eq, Sum.inl.injEq] at notStack notFrame
      exact toLowered.regs r (by simp [notStack, notFrame])
    · exact congrFun toLowered.floats d
  rw [same] at save
  refine ⟨t, toLowered.append (save.mono (by simp)), (save.regs .sp List.not_mem_nil).trans ?_,
    (save.regs .fp List.not_mem_nil).trans loweredFrame⟩
  exact regs_setReg_self framed .sp _

def publishCode (locals : Nat) : List Instr :=
  [if locals = 0 then .mov valueScratch Reg.zr else .addImm valueScratch .sp
    (slotOffset localsBase).toUInt16, .ldr addrScratch .sp (argOffset .localsOut),
    .str valueScratch addrScratch 0] ++ moveConst valueScratch (Word.ofNat locals) ++
    [.ldr addrScratch .sp (argOffset .localsCount), .str valueScratch addrScratch 0]

lemma exec_firstLocal (locals : Nat) (stackPointer : s.regs .sp = place base bottom) :
    (if locals = 0 then Instr.mov valueScratch Reg.zr
      else .addImm valueScratch .sp (slotOffset localsBase).toUInt16).exec s =
      some (s.setReg valueScratch
        (if locals = 0 then 0 else place base (bottom + 8 * localsBase))) := by
  by_cases none : locals = 0
  · rw [if_pos none, if_pos none, exec_mov s (by decide), Cpu.get_zr]
  · have field : (slotOffset localsBase).toUInt16.toNat % 2 ^ 12 = 8 * localsBase := by decide
    rw [if_neg none, if_neg none, Instr.exec_eq rfl, Form.exec, field, ← place_add, ← stackPointer]
    simp only [addSub_fst, Bool.false_eq_true, if_false]
    rfl

/-- A word is stored where an argument points. -/
lemma exec_publish (stackPointer : s.regs .sp = place base bottom) {value : Word}
    (isValue : s.regs valueScratch = value) (arg : FrameSlot) {pointer : Word}
    (hasPointer : s.memory.readWord (place base (bottom + 8 * arg.index)) = pointer) :
    ∃ t, Straight [.ldr addrScratch .sp (argOffset arg), .str valueScratch addrScratch 0]
      [valueScratch, addrScratch] [(pointer, value)] s t := by
  have reached := index_lt_maxFrameSlots arg
  have address : place (s.regs .sp) (8 * arg.index) = place base (bottom + 8 * arg.index) := by
    rw [stackPointer, place_add]
  have load := straight_ldr (show addrScratch ∈ [valueScratch, addrScratch] by simp) (by decide)
    (by omega) address hasPointer
  refine ⟨_, load.append (straight_str _ (show 0 < maxFrameSlots by decide) ?_ ?_)⟩
  · simp [place_zero]
  · rw [Cpu.get_of_ne (by decide), regs_setReg_of_ne s (by decide), isValue]

/-- The locals are published where two arguments point. -/
lemma exec_publishCode (locals : Nat) (stackPointer : s.regs .sp = place base bottom)
    (out count : Word) {first : Word}
    (isFirst : first = if locals = 0 then 0 else place base (bottom + 8 * localsBase))
    (hasOut : s.memory.readWord (place base (bottom + 8 * FrameSlot.localsOut.index)) = out)
    (hasCount : (s.memory.writeWord out first).readWord
      (place base (bottom + 8 * FrameSlot.localsCount.index)) = count) :
    ∃ t, Straight (publishCode locals) [valueScratch, addrScratch]
    [(out, first), (count, Word.ofNat locals)] s t := by
  have find := straight_of_spares
    ((execAll_singleton _ _ _).trans (exec_firstLocal locals stackPointer))
      ((Cpu.Spares.refl s).setReg (show valueScratch ∈ [valueScratch, addrScratch] from .head _) _)
  rw [← isFirst] at find
  obtain ⟨stored, store⟩ := exec_publish ((find.regs .sp (by decide)).trans stackPointer)
    (regs_setReg_self s valueScratch first) .localsOut hasOut
  have toCounted := (find.append store).append
    (straight_moveConst (List.mem_cons_self : valueScratch ∈ _) (by decide) (Word.ofNat locals)
      stored)
  have memory : _ = s.memory.writeWord out first := toCounted.memory
  obtain ⟨t, store'⟩ := exec_publish ((toCounted.regs .sp (by decide)).trans stackPointer)
    (regs_setReg_self stored valueScratch _) .localsCount (memory ▸ hasCount)
  exact ⟨t, toCounted.append store'⟩

/-- Code that clears a local. -/
def clearCode (i : Nat) : List Instr := [.str Reg.zr .sp (slotOffset (localSlot i))]

lemma exec_clear (reached : frameSlots locals ≤ maxFrameSlots)
    (stackPointer : s.regs .sp = place base bottom) :
    ∃ t, Straight ((List.range locals).flatMap clearCode) []
      ((List.range locals).flatMap fun i => [(place base (bottom + 8 * localSlot i), 0)]) s t := by
  refine Straight.exists_each fun i mem {_ t} _ written => ?_
  have lt := Nat.lt_of_lt_of_le (FrameModel.localSlot_lt (List.mem_range.1 mem)) reached
  refine ⟨_, straight_str [] lt ?_ (Cpu.get_zr t)⟩
  rw [written.regs .sp List.not_mem_nil, stackPointer, place_add]

lemma prologue_eq (locals : Nat) : prologue locals =
    enterCode locals ++ (FrameSlot.all.flatMap (fun arg => storeArg arg.index arg) ++
      (publishCode locals ++ (List.range locals).flatMap clearCode)) := by
  have saves : (numbered 0 keptPairs).flatMap (fun p => [p.2.save p.1]) =
      ((numbered 0 savedPairs).map fun p => Instr.stp p.2.1 p.2.2 .fp (pairOffset p.1)) ++
        (numbered savedPairs.length savedFloatPairs).map fun p => Instr.stpD p.2.1 p.2.2 .fp
          (pairOffset p.1) := rfl
  have clears : (List.range locals).flatMap clearCode =
      (List.range locals).map fun i => .str Reg.zr .sp (slotOffset (localSlot i)) :=
      List.map_eq_flatMap.symm
  rw [prologue, enterCode, saves, publishCode, clears]
  simp only [List.append_assoc]
  rfl

/-- Slots go upwards from the low end. -/
lemma slotDistance_eq (addresses : Addresses) (locals index : Nat) :
    (frameModel addresses).slotDistance locals index = -(frameModel addresses).frameBytes locals +
      8 * index := if_pos rfl

lemma openingParts (addresses : Addresses) (reached : frameSlots locals ≤ maxFrameSlots) :
    (frameModel addresses).OpeningParts locals Performs (enterCode locals)
      (fun arg => storeArg arg.index arg) (publishCode locals)
      ((List.range locals).flatMap clearCode) argRegs [.sp, .fp] [valueScratch]
      [valueScratch, addrScratch] 0 fun _ => True where
  argument _ _ := rfl
  shadow_le := by decide
  apart := by decide
  scratch_subset := by simp
  pointed written pointed :=
    ⟨(written.regs .sp (by decide)).trans pointed.1, (written.regs .fp (by decide)).trans pointed.2⟩
  enter s := exec_enterCode addresses locals s
  store arg {_ _} pointed := exec_storeArg arg pointed.framePointer pointed.stackPointer
  publish pointed hasOut hasCount := by
    obtain ⟨t, publishes⟩ := exec_publishCode locals pointed.stackPointer _ _ rfl hasOut
      (hasCount _)
    exact ⟨t, publishes, trivial⟩
  clear pointed _ := by
    obtain ⟨t, clears⟩ := exec_clear reached pointed.stackPointer
    refine ⟨t, ?_⟩
    rw [FrameModel.zeros, List.map_map, List.map_eq_flatMap]
    exact clears.mono (List.nil_subset _)

/-! ### Calls -/

/-- The entry arguments that are passed on, and the registers for them. -/
def passedOn : List (Reg × FrameSlot) :=
  [(.x2, .classId), (.x3, .methodId), (.x4, .receiver), (.x5, .stackBase), (.x6, .stackPos),
    (.x7, .context), (valueScratch, .callPos)]

/-- Code that puts arguments in registers. -/
def passInRegs (tag address : Word) : List Instr :=
  moveConst .x0 tag ++ moveConst .x1 address ++ passedOn.map
    fun p => .ldr p.1 .sp (16 + argOffset p.2)

/-- Code that puts two words on the stack. -/
def passOnStack (ip : Word) : List Instr :=
  [.str valueScratch .sp 0] ++ moveConst valueScratch ip ++ [.str valueScratch .sp 8]

/-- Code up to a call of the runtime. -/
def callLead (entry tag address ip : Word) : List Instr :=
  adjustSp 16 true ++ (passInRegs tag address ++ (passOnStack ip ++ moveConst valueScratch entry))

/-- Code after it. -/
def callTail : List Instr :=
  adjustSp 16 false ++ [.ldr addrScratch .sp (argOffset .context), .ldr addrScratch addrScratch 0]

lemma callRuntime_eq (entry tag address ip : Word) (onHalt : JumpTarget) :
    callRuntime entry tag address ip onHalt = Step.plain (callLead entry tag address ip) ++
      [⟨.blr valueScratch, none⟩] ++ Step.plain callTail ++
        [⟨.cbnz addrScratch 0, some onHalt⟩] := by
  simp [callRuntime, callLead, passInRegs, passedOn, passOnStack, callTail, Step.plain]

/-- The registers that a call changes. -/
def passRegs : List Reg := valueScratch :: argRegs

lemma exec_passInRegs (tag address : Word) (s : Cpu) :
    ∃ t, Straight (passInRegs tag address) passRegs [] s t := by
  have constants := (straight_moveConst (show .x0 ∈ passRegs by decide) (by decide) tag s).append
    (straight_moveConst (show .x1 ∈ passRegs by decide) (by decide) address _)
  have each : ∀ i ∈ passedOn.map fun p => Instr.ldr p.1 .sp (16 + argOffset p.2), ∀ s,
      ∃ t, Straight [i] passRegs [] s t := by
    intro i mem s
    obtain ⟨p, listed, rfl⟩ := List.mem_map.1 mem
    have general : ∀ p ∈ passedOn, p.1 ≠ Reg.zr ∧ p.1 ∈ passRegs := by decide
    obtain ⟨notZero, inRegs⟩ := general p listed
    rw [argOffset, slotOffset, sixteen_add]
    exact ⟨_, straight_ldr inRegs notZero (index_lt_maxFrameSlots p.2) rfl rfl⟩
  obtain ⟨t, loads⟩ := Straight.exists_quiet each _
  exact ⟨t, constants.append loads⟩

lemma exec_passOnStack (ip : Word) (s : Cpu) : ∃ t, Straight (passOnStack ip) passRegs
    [(place (s.regs .sp) 0, s.regs valueScratch), (place (s.regs .sp) 8, ip)] s t := by
  have first := straight_str passRegs (show 0 < maxFrameSlots by decide)
    (Eq.refl (place (s.regs .sp) (8 * (0 : Nat))))
      (Cpu.get_of_ne (show valueScratch ≠ Reg.zr by decide))
  have loaded := first.append (straight_moveConst (List.mem_cons_self : valueScratch ∈ _)
    (by decide) ip _)
  refine ⟨_, loaded.append (straight_str _ (show 1 < maxFrameSlots by decide) ?_ ?_)⟩
  · rw [loaded.regs .sp (by decide)]
    rfl
  · rw [Cpu.get_of_ne (by decide)]
    simp

/-- The arguments of a call are put in registers and in the area below the frame. -/
lemma exec_callLead (addresses : Addresses) (entry tag address ip : Word) (s : Cpu) :
    ∃ t, Performs (callLead entry tag address ip) s t ∧ t.regs .sp = place (s.regs .sp) (-16) ∧
      t.regs .fp = s.regs .fp ∧
      (∀ x, ¬(frameModel addresses).writable x → t.doubles x = s.doubles x) ∧
      ∀ a, a ∉ ByteMemory.span (t.regs .sp) 16 → t.memory a = s.memory a := by
  let lowered := s.setReg .sp (place (s.regs .sp) (-16))
  have lowers : Straight (adjustSp 16 true) [.sp] [] s lowered :=
    straight_of_spares (exec_adjustSp 16 true s) ((Cpu.Spares.refl s).setReg (.head _) _)
  obtain ⟨named, name⟩ := exec_passInRegs tag address lowered
  obtain ⟨passed, pass⟩ := exec_passOnStack ip named
  have passes := name.append
    (pass.append (straight_moveConst (List.mem_cons_self : valueScratch ∈ _)
      (by decide) entry passed))
  refine ⟨_, FrameModel.calls_of_straight (m := frameModel addresses) lowers passes ?_ ?_
    ⟨passes.regs .sp (by decide), passes.regs .fp (by decide)⟩ ?_ (show 16 ≤ 2 ^ 62 by decide)⟩
  · exact regs_setReg_self s .sp _
  · exact lowers.regs .fp (by decide)
  · have same : named.regs .sp = lowered.regs .sp := name.regs .sp (by decide)
    show ∀ p : Word × Word, p ∈ _ → ∃ k : Int, p.1 = place (lowered.regs .sp) k ∧ 0 ≤ k ∧ k + 8 ≤ 16
    rw [← same]
    exact List.forall_mem_cons.2 ⟨⟨0, rfl, by decide, by decide⟩,
      List.forall_mem_singleton.2 ⟨8, rfl, by decide, by decide⟩⟩

lemma exec_callTail (s : Cpu) :
    ∃ t, Performs callTail s t ∧ t.regs .sp = place (s.regs .sp) 16 ∧ t.regs .fp = s.regs .fp ∧
      t.memory = s.memory := by
  let raised := s.setReg .sp (place (s.regs .sp) 16)
  have raise : Straight (adjustSp 16 false) [.sp] [] s raised :=
    straight_of_spares (exec_adjustSp 16 false s) ((Cpu.Spares.refl s).setReg (.head _) _)
  have here : addrScratch ∈ [addrScratch] := .head _
  have loads := (straight_ldr (s := raised) (b := .sp) here (by decide)
    (show FrameSlot.context.index < maxFrameSlots by decide) rfl rfl).append
      (straight_ldr (b := addrScratch) here (by decide) (show 0 < maxFrameSlots by decide) rfl rfl)
  refine ⟨_, Sequential.append raise.run loads.run, (loads.regs .sp (by decide)).trans ?_,
    (loads.regs .fp (by decide)).trans (raise.regs .fp (by decide)),
      loads.memory.trans raise.memory⟩
  exact regs_setReg_self s .sp _

/-! ### Closing a frame -/

/-- Code up to the return. -/
def leaveCode : List Instr :=
  (numbered 0 keptPairs).map (fun p => p.2.restore p.1) ++ [.movSp .sp .fp, .ldpPost .fp .lr 16]

/-- The frame pointer and the return address come back. -/
lemma exec_unlink (stackPointer : s.regs .sp = place base (-16)) :
    (Instr.ldpPost .fp .lr 16).exec s =
      some (((s.setReg .fp (s.memory.readWord (place base (-16)))).setReg .lr
        (s.memory.readWord (place base (-8)))).setReg .sp base) := by
  have second : (-8 : Int) = -16 + 8 := rfl
  have raised : s.regs .sp + Int64.ofInt 16 = base := by
    rw [stackPointer]
    exact (place_add base (-16) 16).trans (place_zero base)
  have offset : (Instr.ldpPost .fp .lr 16).form? = some (.pair true .after .fp .lr .sp 16) := by
    decide
  rw [second, ← loadPair_eq s (by decide), ← stackPointer, Instr.exec_eq offset, Form.exec,
    if_pos rfl, if_pos rfl, if_neg (by decide), raised]

lemma exec_leaveCode (wanted : Reg ⊕ DReg → Word) (framePointer : s.regs .fp = place base (-16))
    (saved : ∀ p ∈ [(-16, wanted (.inl .fp)), (-8, wanted (.inl .lr))] ++ pairWords wanted
      (numbered 0 keptPairs), s.memory.readWord (place base p.1) = p.2) :
    ∃ t, Performs leaveCode s t ∧ t.regs .sp = base ∧ t.regs .fp = wanted (.inl .fp) ∧
      t.regs .lr = wanted (.inl .lr) ∧ ∀ p ∈ numbered 0 keptPairs, ∀ x ∈ p.2.members,
      t.value x = wanted x := by
  rw [List.forall_mem_append, List.forall_mem_cons, List.forall_mem_singleton] at saved
  obtain ⟨⟨frameWord, returnWord⟩, pairsSaved⟩ := saved
  obtain ⟨restored, restore, memory, values, others⟩ :=
    exec_restores wanted keptPairs_named keptPairs_near
      (fun p mem isPair => (ne_pointer_of_kept p mem _ isPair).2.1 rfl) framePointer pairsSaved
  have restoredFrame : restored.regs .fp = place base (-16) :=
    (others (.inl .fp) fun p mem isPair => (ne_pointer_of_kept p mem _ isPair).2.1 rfl).trans
      framePointer
  let raised := restored.setReg .sp (place base (-16))
  have raise : (Instr.movSp .sp .fp).exec restored = some raised := by
    rw [exec_movSp, restoredFrame]
  have top : raised.regs .sp = place base (-16) := by simp [raised]
  have unlink := exec_unlink top
  rw [Cpu.setReg_memory, memory, frameWord, returnWord] at unlink
  let last := ((raised.setReg .fp (wanted (.inl .fp))).setReg .lr (wanted (.inl .lr))).setReg
    .sp base
  refine ⟨last, ?_, by simp [last], by simp [last], by simp [last], fun p mem x isPair => ?_⟩
  · rw [Performs, leaveCode, execAll_append_of_eq restore, execAll_cons raise, execAll_singleton,
      unlink]
  · have same : last.value x = restored.value x := by
      have spares : restored.Spares [.sp, .fp, .lr] last :=
        ((((Cpu.Spares.refl restored).setReg (.head _) _).setReg (by simp) _).setReg
          (by simp) _).setReg (.head _) _
      obtain ⟨notStack, notFrame, notReturn⟩ := ne_pointer_of_kept p mem x isPair
      rcases x with r | d
      · rw [ne_eq, Sum.inl.injEq] at notStack notFrame notReturn
        exact spares.regs r (by simp [notStack, notFrame, notReturn])
      · exact congrFun spares.floats d
    rw [same, values p mem x isPair]

/-! ### Code -/

/-- Instructions in a row, wherever they stand. -/
lemma runs_plain {instrs : List Instr} (run : Performs instrs s t) :
    (frameModel addresses).runs ((Step.plain instrs).map Step.piece) s t := by
  intro code start aligned stand
  rw [Piece.flatMap_plain fun _ => rfl] at stand ⊢
  have reached := Runs.block aligned stand run
  rwa [← length_encodeAll] at reached

/-- Every float register that belongs to the caller is in a pair. -/
lemma exists_pair_of_calleeSaved {d : DReg} (low : 8 ≤ d.id) (high : d.id < 16) :
    ∃ p ∈ numbered 0 keptPairs, ∃ x ∈ p.2.members, x = .inr d := by
  have each : ∀ k : Fin 8, ∃ p ∈ numbered 0 keptPairs, ∃ x ∈ p.2.members,
    x = .inr ⟨UInt8.ofNat (8 + k)⟩ := by decide
  have least : 8 ≤ d.id.toNat := low
  have greatest : d.id.toNat < 16 := high
  have number : UInt8.ofNat (8 + (d.id.toNat - 8)) = d.id := by
    rw [Nat.add_sub_cancel' least, UInt8.ofNat_toNat]
  obtain ⟨p, listed, x, isPair, same⟩ := each ⟨d.id.toNat - 8, by omega⟩
  rw [number] at same
  exact ⟨p, listed, x, isPair, same⟩

lemma frameModel_lawful (addresses : Addresses) (reached : frameSlots locals ≤ maxFrameSlots) :
    (frameModel addresses).Lawful locals where
  toFits := frameModel_fits addresses reached
  slotAddress {s t} stackPointer _ i _ := by
    show place (t.regs .sp) (8 * i) = place (s.regs .sp)
      ((frameModel addresses).slotDistance locals i)
    have top : t.regs .sp = place (s.regs .sp) (-(frameModel addresses).frameBytes locals) :=
      stackPointer
    rw [top, place_add, slotDistance_eq]
  opens := by
    have short : locals < UInt32.size := by
      unfold maxFrameSlots frameSlots at reached
      unfold UInt32.size
      omega
    refine ⟨(Step.plain (prologue (layoutLocals locals))).map Step.piece, fun _ => rfl,
      fun {s} entry => ?_⟩
    rw [layoutLocals_of_lt short, prologue_eq]
    obtain ⟨t, run, pointed, -, memory⟩ :=
      (openingParts addresses reached).exists_opened (frameModel_fits addresses reached) entry
    exact ⟨t, runs_plain run, pointed.1, pointed.2, fun x other => absurd trivial other, memory⟩
  calls tag address ip onHalt := by
    refine ⟨(Step.plain (callLead addresses.runtime tag address ip)).map Step.piece,
      (Step.plain callTail).map Step.piece, Step.piece ⟨Instr.cbnz addrScratch 0, some onHalt⟩,
      fun l => ?_, fun u => ?_, fun w => ?_⟩
    · show Except.ok ((callRuntime addresses.runtime tag address ip onHalt).map Step.piece, l) = _
      rw [callRuntime_eq, List.map_append, List.map_append, List.map_append]
      rfl
    · obtain ⟨v, run, rest⟩ := exec_callLead addresses addresses.runtime tag address ip u
      exact ⟨v, runs_plain run, rest⟩
    · obtain ⟨x, run, stackPointer, framePointer, memory⟩ := exec_callTail w
      exact ⟨x, runs_plain run, stackPointer, framePointer, fun y other => absurd trivial other,
        memory⟩
  closes := by
    refine ⟨(Step.plain leaveCode).map Step.piece, fun _ => rfl,
      fun {s u} framePointer saved _ => ?_⟩
    obtain ⟨v, run, stackPointer, frame, link, values⟩ := exec_leaveCode s.value framePointer
      fun p mem => saved p (List.mem_append_left _ mem)
    refine ⟨v, runs_plain run, stackPointer, frame, fun r mem => ?_, fun d belongs => ?_, link⟩
    · have listed : ∀ r ∈ (frameModel {}).calleeSaved, r = .fp ∨ ∃ p ∈ numbered 0 keptPairs,
          ∃ x ∈ p.2.members, x = .inl r := by decide
      rcases listed r mem with rfl | ⟨p, inPairs, _, isPair, rfl⟩
      · exact frame
      · exact values p inPairs _ isPair
    · obtain ⟨p, inPairs, _, isPair, rfl⟩ := exists_pair_of_calleeSaved belongs.1 belongs.2
      exact values p inPairs _ isPair

end StackMachine.A64
