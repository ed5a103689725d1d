import Mathlib.Data.List.Basic
import StackMachine.Proofs.A64.Machine

/-!
# Constants on AArch64

A constant is put together from its four halves of 16 bits (`halfOf`).  The first wide move sets one
half and fills the others with zeros or with ones; each further half that differs from the filling
is patched by a move that keeps the rest.  So the register ends up with the halves of the constant,
whatever it held before, and there are as many moves as there are halves that differ from the
filling, but at least one (`moveConst_exact`).
-/

namespace StackMachine.A64

open Native

/-! ### Halves of words -/

variable {a : Word} {i j half : Nat}

lemma getLsbD_halfOf (w : Word) (inWord : i < 4) (inHalf : j < 16) :
    (halfOf w i).toBitVec.getLsbD j = w.toBitVec.getLsbD (16 * i + j) := by
  have count : (UInt64.ofNat (16 * i)).toNat % 64 = 16 * i := by
    rw [UInt64.toNat_ofNat']; omega
  have half : (halfOf w i).toBitVec = ((w.toUInt64 >>> UInt64.ofNat (16 * i)).toBitVec).setWidth
    16 := rfl
  have shift : (w.toUInt64 >>> UInt64.ofNat (16 * i)).toBitVec = w.toBitVec >>> (16 * i) := by
    apply BitVec.eq_of_toNat_eq
    rw [UInt64.toNat_toBitVec, UInt64.toNat_shiftRight, count, BitVec.toNat_ushiftRight]
    rfl
  rw [half, shift, BitVec.getLsbD_setWidth, BitVec.getLsbD_ushiftRight]
  simp [inHalf]

lemma eq_of_halfOf_eq {b : Word} (same : ∀ i < 4, halfOf a i = halfOf b i) : a = b := by
  apply Int64.toBitVec_inj.1
  refine BitVec.eq_of_getLsbD_eq fun k inWord => ?_
  have inHalf : k % 16 < 16 := Nat.mod_lt _ (by decide)
  have split : 16 * (k / 16) + k % 16 = k := Nat.div_add_mod k 16
  have half := same (k / 16) (by omega)
  rw [← split, ← getLsbD_halfOf a (by omega) inHalf, ← getLsbD_halfOf b (by omega) inHalf, half]

lemma getLsbD_placed (x : UInt16) (inWord : i < 4) (inHalf : j < 16) (place : half < 4) :
    (BitVec.ofNat 64 x.toNat <<< (16 * half)).getLsbD (16 * i + j) =
      (decide (i = half) && x.toBitVec.getLsbD j) := by
  have bit : (BitVec.ofNat 64 x.toNat).getLsbD (16 * i + j - 16 * half) =
    x.toNat.testBit (16 * i + j - 16 * half) := by
    rw [BitVec.getLsbD_ofNat]
    have : 16 * i + j - 16 * half < 64 := by omega
    simp [this]
  rw [BitVec.getLsbD_shiftLeft, bit]
  by_cases same : i = half
  · subst same
    have : 16 * i + j < 64 := by omega
    have inner : 16 * i + j - 16 * i = j := by omega
    simp [this, inner]
    rfl
  · rcases Nat.lt_or_gt_of_ne same with before | after
    · have : 16 * i + j < 16 * half := by omega
      simp [this, same]
    · have above : x.toNat.testBit (16 * i + j - 16 * half) = false :=
        Nat.testBit_lt_two_pow
          (Nat.lt_of_lt_of_le x.toNat_lt (Nat.pow_le_pow_right (by decide) (by omega)))
      simp [same, above]

/-! The halves of a word after each kind of wide move. -/

lemma toBitVec_allOnes : (0xFFFF : UInt16).toBitVec = BitVec.allOnes 16 := by decide

section

variable (a : Word) (x : UInt16) (inWord : i < 4) (place : half < 4)
include inWord place

lemma halfOf_zeros : halfOf (WideMove.zeros.eval a x.toNat half) i = if i = half then x else 0 := by
  apply UInt16.toBitVec_inj.1
  refine BitVec.eq_of_getLsbD_eq fun j inHalf => ?_
  rw [getLsbD_halfOf _ inWord inHalf]
  show (BitVec.ofNat 64 x.toNat <<< (16 * half)).getLsbD (16 * i + j) = _
  rw [getLsbD_placed x inWord inHalf place]
  split <;> simp [*]

lemma halfOf_ones :
    halfOf (WideMove.ones.eval a x.toNat half) i = if i = half then ~~~x else 0xFFFF := by
  apply UInt16.toBitVec_inj.1
  refine BitVec.eq_of_getLsbD_eq fun j inHalf => ?_
  rw [getLsbD_halfOf _ inWord inHalf]
  show (~~~(BitVec.ofNat 64 x.toNat <<< (16 * half))).getLsbD (16 * i + j) = _
  have inside : 16 * i + j < 64 := by omega
  rw [BitVec.getLsbD_not, getLsbD_placed x inWord inHalf place, decide_eq_true inside,
    Bool.true_and]
  split
  · rw [UInt16.toBitVec_not, BitVec.getLsbD_not]
    simp [*]
  · rw [toBitVec_allOnes, BitVec.getLsbD_allOnes]
    simp [*]

lemma halfOf_keep :
    halfOf (WideMove.keep.eval a x.toNat half) i = if i = half then x else halfOf a i := by
  apply UInt16.toBitVec_inj.1
  refine BitVec.eq_of_getLsbD_eq fun j inHalf => ?_
  rw [getLsbD_halfOf _ inWord inHalf]
  have inside : 16 * i + j < 64 := by omega
  have mask : (0xFFFF#64 <<< (16 * half)).getLsbD (16 * i + j) = decide (i = half) := by
    have placed := getLsbD_placed 0xFFFF inWord inHalf place
    rw [toBitVec_allOnes, BitVec.getLsbD_allOnes, decide_eq_true inHalf, Bool.and_true] at placed
    exact placed
  show ((a.toBitVec &&& ~~~(0xFFFF#64 <<< (16 * half))) ||| BitVec.ofNat 64 x.toNat <<<
    (16 * half)).getLsbD (16 * i + j) = _
  rw [BitVec.getLsbD_or, BitVec.getLsbD_and, BitVec.getLsbD_not, mask,
    getLsbD_placed x inWord inHalf place, decide_eq_true inside, Bool.true_and]
  split
  · simp [*]
  · rw [getLsbD_halfOf a inWord inHalf]
    simp [*]

end

/-! ### Moves in a row -/

variable {s : Cpu} {rd : Reg}

lemma setReg_setReg (s : Cpu) (rd : Reg) (v w : Word) :
    (s.setReg rd v).setReg rd w = s.setReg rd w := by
  simp only [Cpu.setReg, Function.update_idem]

/-- The numbers below a bound with a property are the first of them and those after it. -/
lemma filter_range_of_find? {p : Nat → Bool} {n k : Nat} (found : (List.range n).find? p = some k) :
    (List.range n).filter p = k :: (List.range n).filter fun i => decide (k < i) && p i := by
  obtain ⟨holds, before, after, split, none⟩ := List.find?_eq_some_iff_append.1 found
  have sorted : (List.range n).Pairwise (· < ·) := List.pairwise_lt_range
  rw [split] at sorted ⊢
  have above := (List.pairwise_cons.1 (List.pairwise_append.1 sorted).2.1).1
  have absent : ∀ i ∈ before, p i = false := by simpa using none
  have skipped : before.filter p = [] := List.filter_eq_nil_iff.2
    fun i mem => by simp [absent i mem]
  have skippedToo : (before.filter fun i => decide (k < i) && p i) = [] :=
    List.filter_eq_nil_iff.2 fun i mem => by simp [absent i mem]
  have kept : (after.filter fun i => decide (k < i) && p i) = after.filter p :=
    List.filter_congr fun i mem => by simp [above i mem]
  rw [List.filter_append, List.filter_append, skipped, skippedToo, List.filter_cons_of_pos holds,
    List.filter_cons_of_neg (by simp), kept]
  rfl

/-- The places of the moves: all others hold the filling, and the patches are counted. -/
lemma synthesise_places (fill : UInt16) (value : Word) :
    let differs := fun i => halfOf value i != fill
    let start := ((List.range 4).find? differs).getD 0
    let later := (List.range 4).filter fun i => decide (start < i) && differs i
    start < 4 ∧ (∀ i < 4, i = start ∨ i ∈ later ∨ halfOf value i = fill) ∧
      later.length + 1 = max (4 - countHalves value fill) 1 := by
  intro differs start later
  have counted : countHalves value fill + ((List.range 4).filter differs).length = 4 := by
    have split := List.length_eq_length_filter_add (l := List.range 4)
      fun i => halfOf value i == fill
    rw [List.length_range] at split
    exact split.symm
  cases found : (List.range 4).find? differs with
  | none =>
    have all : ∀ i ∈ List.range 4, differs i = false := by
      intro i mem
      simpa using List.find?_eq_none.1 found i mem
    have noneDiffers : (List.range 4).filter differs = [] := List.filter_eq_nil_iff.2
      fun i mem => by simp [all i mem]
    have noneLater : later = [] := List.filter_eq_nil_iff.2 fun i mem => by simp [all i mem]
    have first : start = 0 := by simp only [start, found, Option.getD_none]
    refine ⟨by omega, fun i lt => .inr (.inr ?_), ?_⟩
    · simpa [differs] using all i (List.mem_range.2 lt)
    · rw [noneDiffers] at counted
      rw [noneLater, List.length_nil] at *
      omega
  | some k =>
    have first : start = k := by simp only [start, found, Option.getD_some]
    have places := filter_range_of_find? found
    rw [← first] at places
    have below : start < 4 := by
      have mem : start ∈ (List.range 4).filter differs := by
        rw [places]
        exact .head _
      exact List.mem_range.1 (List.mem_filter.1 mem).1
    refine ⟨below, fun i lt => ?_, ?_⟩
    · by_cases same : halfOf value i = fill
      · exact .inr (.inr same)
      · have mem : i ∈ (List.range 4).filter differs :=
          List.mem_filter.2 ⟨List.mem_range.2 lt, by simpa [differs] using same⟩
        rw [places] at mem
        rcases List.mem_cons.1 mem with here | there
        · exact .inl here
        · exact .inr (.inl there)
    · rw [places, List.length_cons] at counted
      show later.length + 1 = _
      have count : countHalves value fill + (later.length + 1) = 4 := counted
      omega

lemma length_synthesise (fill : UInt16) (first : UInt16 → UInt8 → Instr) (rd : Reg) (value : Word) :
    (synthesise fill first rd value).length = max (4 - countHalves value fill) 1 := by
  rw [← (synthesise_places fill value).2.2, synthesise, List.length_cons, List.length_map]

/-! ### Constants -/

section

variable (general : rd ≠ Reg.zr)
include general

lemma exec_moveWide (kind : WideMove) (imm : UInt16) (place : half < 4) {i : Instr}
    (stands : i.form? = some (.moveWide kind rd imm.toNat ((UInt8.ofNat half).toNat % 2 ^ 2)))
    (s : Cpu) : i.exec s = some (s.setReg rd (kind.eval (s.regs rd) imm.toNat half)) := by
  have number : (UInt8.ofNat half).toNat % 2 ^ 2 = half := by
    rw [UInt8.toNat_ofNat']
    omega
  rw [Instr.exec_eq stands, number, Form.exec, Cpu.put_of_ne general, Cpu.get_of_ne general]

/-- Patches replace the halves that they name. -/
lemma exec_patches (value : Word) (places : List Nat) (inWord : ∀ i ∈ places, i < 4) (w : Word) :
    ∃ w', execAll Instr.exec (s.setReg rd w)
        (places.map fun i => .movk rd (halfOf value i) (UInt8.ofNat i)) = some (s.setReg rd w') ∧
      ∀ i < 4, halfOf w' i = if i ∈ places then halfOf value i else halfOf w i := by
  induction places generalizing w with
  | nil => exact ⟨w, rfl, fun i _ => by simp⟩
  | cons first rest ih =>
    have place := inWord first (.head _)
    obtain ⟨w', run, halves⟩ :=
      ih (fun i mem => inWord i (.tail _ mem))
        (WideMove.keep.eval w (halfOf value first).toNat first)
    refine ⟨w', ?_, fun i lt => ?_⟩
    · have patch := exec_moveWide (i := .movk rd (halfOf value first) (UInt8.ofNat first))
        general .keep (halfOf value first) place rfl (s.setReg rd w)
      rw [setReg_setReg, Cpu.setReg_regs, Function.update_self] at patch
      rw [List.map_cons, execAll_cons patch, run]
    · rw [halves i lt, halfOf_keep w _ lt place]
      by_cases same : i = first
      · simp [same]
      · simp [same]

/-- A first move that fills all other halves, and patches for those that differ. -/
lemma exec_synthesise {fill : UInt16} {first : UInt16 → UInt8 → Instr}
    (fills : ∀ imm half, half < 4 → ∃ w, (first imm (UInt8.ofNat half)).exec s =
      some (s.setReg rd w) ∧ ∀ i < 4, halfOf w i = if i = half then imm else fill) (value : Word) :
    execAll Instr.exec s (synthesise fill first rd value) = some (s.setReg rd value) := by
  let differs := fun i => halfOf value i != fill
  let start := ((List.range 4).find? differs).getD 0
  let later := (List.range 4).filter fun i => decide (start < i) && differs i
  obtain ⟨inWord, places, -⟩ := synthesise_places fill value
  obtain ⟨w, move, filled⟩ := fills (halfOf value start) start inWord
  obtain ⟨w', patch, halves⟩ := exec_patches (s := s) general value later
    (fun i mem => List.mem_range.1 (List.mem_filter.1 mem).1) w
  have same : w' = value := by
    refine eq_of_halfOf_eq fun i lt => ?_
    rw [halves i lt, filled i lt]
    split
    case isTrue => rfl
    case isFalse notPatched =>
      split
      case isTrue here => rw [here]
      case isFalse notStart =>
        rcases places i lt with here | there | kept
        · exact absurd here notStart
        · exact absurd there notPatched
        · exact kept.symm
  show execAll Instr.exec s (first (halfOf value start) (UInt8.ofNat start) :: later.map _) = _
  rw [execAll_cons move, patch, same]

/-- A constant is put together whatever the register held. -/
lemma exec_moveConst (value : Word) (s : Cpu) :
    execAll Instr.exec s (moveConst rd value) = some (s.setReg rd value) := by
  unfold moveConst
  split
  · refine exec_synthesise general
      (fun imm half place => ⟨_, exec_moveWide general .ones (~~~imm) place rfl s, ?_⟩) _
    intro i lt
    rw [halfOf_ones _ _ lt place, UInt16.not_not]
  · refine exec_synthesise general
      (fun imm half place => ⟨_, exec_moveWide general .zeros imm place rfl s, ?_⟩) _
    intro i lt
    rw [halfOf_zeros _ _ lt place]

end

/-- The filling is the one that leaves fewer halves to be moved. -/
lemma length_moveConst (rd : Reg) (value : Word) :
    (moveConst rd value).length = moveConstLength value := by
  unfold moveConst moveConstLength
  split
  case isTrue fewer => rw [length_synthesise, Nat.max_eq_left (Nat.le_of_lt fewer)]
  case isFalse most => rw [length_synthesise, Nat.max_eq_right (Nat.le_of_not_lt most)]

lemma form?_of_mem_moveConst {value : Word} {i : Instr} (mem : i ∈ moveConst rd value) :
    ∃ kind imm half, i.form? = some (.moveWide kind rd imm half) := by
  have wide {fill : UInt16} {first : UInt16 → UInt8 → Instr}
      (start : ∀ imm half, ∃ kind imm' half',
      (first imm half).form? = some (.moveWide kind rd imm' half'))
        (mem : i ∈ synthesise fill first rd value) : ∃ kind imm half,
        i.form? = some (.moveWide kind rd imm half) := by
    rcases List.mem_cons.1 mem with rfl | later
    · exact start _ _
    · obtain ⟨place, -, rfl⟩ := List.mem_map.1 later
      exact ⟨_, _, _, rfl⟩
  unfold moveConst at mem
  split at mem
  · exact wide (fun _ _ => ⟨_, _, _, rfl⟩) mem
  · exact wide (fun _ _ => ⟨_, _, _, rfl⟩) mem

/-- **Constants are exact.**  The words of a constant are wide moves to its register, as many as
predicted.  Executed from any state and wherever they stand in the code, they leave the constant in
the register; nothing else changes. -/
theorem moveConst_exact (rd : Reg) (general : rd ≠ .sp) (value : Word) :
    (moveConst rd value).length = moveConstLength value ∧
    (∀ i ∈ moveConst rd value, ∃ kind imm half,
      decode i.encode = some (.moveWide kind rd imm half)) ∧
    ∀ s : Cpu, ∃ t, execAll Instr.exec s (moveConst rd value) = some t ∧ t.regs rd = value ∧
    (∀ r, r ≠ rd → t.regs r = s.regs r) ∧
      t.doubles = s.doubles ∧ t.flags = s.flags ∧ t.memory = s.memory ∧
      ∀ code offset, 4 ∣ offset → Stand code offset (encodeAll (moveConst rd value)) →
        Runs code (offset, s) ((offset + 4 * moveConstLength value : Nat), t) := by
  refine ⟨length_moveConst rd value, fun i mem => ?_, fun s => ?_⟩
  · obtain ⟨kind, imm, half, stands⟩ := form?_of_mem_moveConst mem
    exact ⟨kind, imm, half, decode_encode stands⟩
  · have run := exec_moveConst general value s
    refine ⟨s.setReg rd value, run, by simp, fun r other => by simp [other], rfl, rfl, rfl, ?_⟩
    intro code offset aligned stand
    rw [← length_moveConst rd value]
    exact Runs.block aligned stand run

/-- A constant with two halves of ones, one of zeros and another one takes two moves, the first of
ones. -/
theorem moveConst_exact_mixed :
    let value : Word := -0xEDCB00010000
    Reg.x3 ≠ .sp ∧ moveConst .x3 value = [.movn .x3 0xFFFF 0, .movk .x3 0x1234 2] ∧
      (moveConst .x3 value).length = moveConstLength value ∧
      ∀ s : Cpu, ∃ t, execAll Instr.exec s [.movn .x3 0xFFFF 0, .movk .x3 0x1234 2] = some t ∧
      t.regs .x3 = value ∧
        ∀ r, r ≠ .x3 → t.regs r = s.regs r := by
  intro value
  have general : Reg.x3 ≠ .sp := by decide
  have listed : moveConst .x3 value = [.movn .x3 0xFFFF 0, .movk .x3 0x1234 2] := by decide
  obtain ⟨length, -, runs⟩ := moveConst_exact .x3 general value
  refine ⟨general, listed, length, fun s => ?_⟩
  obtain ⟨t, run, result, kept, -⟩ := runs s
  exact ⟨t, listed ▸ run, result, kept⟩

end StackMachine.A64
