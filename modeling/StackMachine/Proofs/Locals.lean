import Mathlib.Tactic.Common
import StackMachine.Program
import StackMachine.Proofs.Ideal

/-!
# Locals

The words of a frame are counted by the instructions of its method: every local that an instruction
names is in the frame.
-/

namespace StackMachine

/-- The count of local words covers what has been counted and every instruction. -/
lemma foldl_localReach (code : List Instruction) : ∀ most : Nat,
    most ≤ code.foldl (fun most i => max most (i.localReach?.getD 0)) most ∧ ∀ i ∈ code,
        i.localReach?.getD 0 ≤ code.foldl (fun most i => max most (i.localReach?.getD 0)) most := by
  induction code with
  | nil => exact fun most => ⟨Nat.le_refl _, List.forall_mem_nil _⟩
  | cons i code ih =>
    intro most
    obtain ⟨counted, others⟩ := ih (max most (i.localReach?.getD 0))
    exact ⟨Nat.le_trans (Nat.le_max_left _ _) counted,
      List.forall_mem_cons.2 ⟨Nat.le_trans (Nat.le_max_right _ _) counted, others⟩⟩

lemma Method.le_localWords {method : Method} {i : Instruction} {n : Nat} (inCode : i ∈ method.code)
    (reach : i.localReach? = some n) : n ≤ method.localWords := by
  have covers := (foldl_localReach method.code.toList 0).2 i (Array.mem_toList_iff.2 inCode)
  rwa [reach] at covers

/-- Which locals an action names by an operand, and how far that reaches. -/
def Action.Reaches (operand : Word) (reach : Option Nat) : Action → Prop
  | .loadLocal slot _ | .storeLocal slot _ =>
    slot = operand ∧ (0 ≤ operand → reach = some (operand.toInt.toNat + 1))
  | .loadPairLocal slot | .storePairLocal slot =>
    slot = operand ∧ (0 ≤ operand → reach = some (operand.toInt.toNat + 2))
  | _ => True

lemma Instruction.reaches (i : Instruction) : i.action.Reaches i.operand i.localReach? := by
  by_cases isLocal : i.context = .frame
  all_goals
    obtain ⟨op, operand, operand2, operand3, float⟩ := i
    cases op
    all_goals try exact trivial
    all_goals
      unfold action localReach?
      dsimp only
  -- what is left are the jumps, and the instructions on variables
  case pos.jmp | neg.jmp => split <;> exact trivial
  all_goals first
    | rw [if_pos isLocal]
      exact ⟨rfl, fun nonneg => if_pos ⟨isLocal, nonneg⟩⟩
    | rw [if_neg isLocal]
      exact trivial

/-- The local after a local. -/
lemma Word.toIndex?_succ {slot : Word} (nonneg : 0 ≤ slot) (small : slot ≠ Int64.maxValue) :
    toIndex? (slot + 1) = some (slot.toInt.toNat + 1) := by
  rw [Int64.le_iff_toInt_le] at nonneg
  have low : (0 : Int) ≤ slot.toInt := nonneg
  have high : slot.toInt < 2 ^ 63 := slot.toInt_lt
  have other : slot.toInt ≠ 2 ^ 63 - 1 := fun same => small (Int64.toInt_inj.1 same)
  have sum : (slot + 1).toInt = slot.toInt + 1 := by
    rw [Int64.toInt_add]
    exact Int.bmod_eq_of_le (by simp; omega) (by simp; omega)
  refine toIndex?_eq_some_iff.2 ⟨?_, by omega⟩
  rw [Int64.le_iff_toInt_le, sum]
  exact Int.add_nonneg low Int.one_nonneg

lemma Word.ne_maxValue {slot : Word} (small : slot ≤ 0xFFFFFFFF) : slot ≠ Int64.maxValue := by
  rintro rfl
  exact absurd small (by decide)

namespace Instruction

variable {method : Method} {i : Instruction}

/-- An instruction on locals names the local of its operand. -/
lemma operand_mem_slots (named : i.action.slots ≠ []) : i.operand ∈ i.action.slots := by
  have reaches := i.reaches
  generalize i.action = action at named reaches
  cases action
  case loadLocal | storeLocal | loadPairLocal | storePairLocal =>
    obtain ⟨rfl, -⟩ := reaches
    exact .head _
  all_goals exact absurd rfl named

/-- The locals that an instruction names are in the frame, unless its operand is negative. -/
lemma slots_inFrame (inCode : i ∈ method.code) (nonneg : 0 ≤ i.operand)
    (small : i.operand ≠ Int64.maxValue) :
    ∀ slot ∈ i.action.slots, ∃ k, Word.toIndex? slot = some k ∧ k < method.localWords := by
  have reaches := i.reaches
  have index := Word.toIndex?_eq_some_iff.2 ⟨nonneg, rfl⟩
  generalize i.action = action at reaches ⊢
  cases action
  case loadLocal | storeLocal =>
    obtain ⟨rfl, reach⟩ := reaches
    exact List.forall_mem_singleton.2 ⟨_, index, Method.le_localWords inCode (reach nonneg)⟩
  case loadPairLocal | storePairLocal =>
    obtain ⟨rfl, reach⟩ := reaches
    have bound := Method.le_localWords inCode (reach nonneg)
    exact List.forall_mem_cons.2 ⟨⟨_, index, by omega⟩,
      List.forall_mem_singleton.2 ⟨_, Word.toIndex?_succ nonneg small, bound⟩⟩
  all_goals exact List.forall_mem_nil _

end Instruction

end StackMachine
