import Mathlib.Tactic.Common
import StackMachine.Native.Object
import StackMachine.Proofs.Native.Parts

/-!
# What lowering does to branches

A backend is lawful if the code of an operation has an open branch for each target of the operation
and for no other, if every branch has its field within its piece of code, and if on a target whose
instructions have a fixed length every piece keeps to it (`Backend.Lawful`).  Both backends are.
-/

namespace StackMachine

namespace Native

/-- A piece of code keeps to the length of instructions, and so does the field of its branch. -/
structure Piece.Fits (unit : Nat) (piece : Piece) : Prop where
  dvd_length : unit ∣ piece.bytes.length
  field : ∀ {at_ kind target}, piece.branch = some (at_, kind, target) →
    at_ + 4 ≤ piece.bytes.length ∧ unit ∣ at_ ∧ (kind = .rel32 ∨ 4 ∣ unit)

/-- The target of a branch. -/
def Piece.target? (piece : Piece) : Option JumpTarget := piece.branch.map fun branch => branch.2.2

/-- A backend whose instructions have a length that is a multiple of `unit`. -/
structure Backend.Lawful {γ φ lits : Type} (backend : Backend γ φ lits) (unit : Nat) : Prop where
  fits : ∀ {literals op pieces literals'}, backend.lower literals op = .ok (pieces, literals') →
    ∀ piece ∈ pieces, piece.Fits unit
  targets : ∀ {literals op pieces literals'}, backend.lower literals op = .ok (pieces, literals') →
    ∀ target, target ∈ pieces.filterMap Piece.target? ↔ target ∈ op.targets
  fails : ∀ {literals op e}, backend.lower literals op = .error e → ∀ f, e ≠ .fixup f

namespace Step

variable {ι : Type}

@[simp]
lemma target?_piece [Encoding ι] (step : Step ι) : step.piece.target? = step.target := by
  unfold piece Piece.target?
  cases step.target <;> rfl

@[simp]
lemma filterMap_plain (code : List ι) : (plain code).filterMap target = [] := by
  induction code with
  | nil => rfl
  | cons instr rest ih => exact ih

lemma filterMap_piece [Encoding ι] (steps : List (Step ι)) :
    (steps.map piece).filterMap Piece.target? = steps.filterMap target := by
  rw [List.filterMap_map]
  exact congrArg (List.filterMap · steps) (funext target?_piece)

end Step

end Native

open Native

/-! ### x86-64 -/

namespace X64

namespace Step

variable {step : Step} {steps : List Step}

/-- An instruction without an open branch, or a branch with room for its displacement. -/
def Fits (step : Step) : Prop := step.target ≠ none → 4 ≤ step.instr.encode.length

@[simp]
lemma target_jump (target : JumpTarget) : (jump target).target = some target := rfl

@[simp]
lemma target_branch (cond : Cond) (target : JumpTarget) :
    (branch cond target).target = some target := rfl

@[simp]
lemma fits_jump (target : JumpTarget) : (jump target).Fits := fun _ => Nat.le_add_left 4 1

@[simp]
lemma fits_branch (cond : Cond) (target : JumpTarget) :
    (branch cond target).Fits := fun _ => Nat.le_add_left 4 2

@[simp]
lemma fits_closed (instr : Instr) : Fits { instr } := fun open_ => absurd rfl open_

def AllFit (steps : List Step) : Prop := ∀ step ∈ steps, step.Fits

@[simp]
lemma allFit_plain (code : List Instr) : AllFit (Step.plain code) := by
  intro step mem open_
  obtain ⟨instr, -, rfl⟩ := List.mem_map.1 mem
  exact absurd rfl open_

@[simp]
lemma allFit_nil : AllFit [] := List.forall_mem_nil _

@[simp]
lemma allFit_cons : AllFit (step :: steps) ↔ step.Fits ∧ AllFit steps := List.forall_mem_cons

@[simp]
lemma allFit_append {more : List Step} : AllFit (steps ++ more) ↔ AllFit steps ∧ AllFit more :=
  List.forall_mem_append

lemma fits_piece (fits : step.Fits) : step.piece.Fits 1 where
  dvd_length := Nat.one_dvd _
  field {at_ kind target} branches := by
    obtain ⟨target', aims, same⟩ := Option.map_eq_some_iff.1 branches
    cases same
    refine ⟨?_, Nat.one_dvd _, .inl rfl⟩
    have long := fits (by rw [aims]; exact Option.some_ne_none _)
    show step.instr.encode.length - 4 + 4 ≤ step.instr.encode.length
    omega

end Step

/-- The open branches of an operation go to its targets. -/
lemma mem_select (abi : Abi) (addresses : Addresses) (op : Operation Reg Xmm)
    (target : JumpTarget) :
    target ∈ (select abi addresses op).filterMap Step.target ↔ target ∈ op.targets := by
  cases op
  case move dst src | moveFloat dst src =>
    simp only [select]
    split <;> simp [Operation.targets]
  case floatCompareBranch relation expected left right target' =>
    cases relation <;> cases expected <;>
      simp [select, floatCompareBranch, branchOrderedEqual, Operation.targets]
  all_goals simp [select, divide, branchOrderedEqual, reserve, callRuntime, Operation.targets]

lemma allFit_select (abi : Abi) (addresses : Addresses) (op : Operation Reg Xmm) :
    Step.AllFit (select abi addresses op) := by
  cases op
  case move dst src | moveFloat dst src =>
    simp only [select]
    split <;> simp
  case floatCompareBranch relation expected left right target' =>
    cases relation <;> cases expected <;> simp [select, floatCompareBranch, branchOrderedEqual]
  all_goals simp [select, divide, branchOrderedEqual, reserve, callRuntime]

variable {abi : Abi} {addresses : Addresses} {pool pool' : LiteralPool} {op : Operation Reg Xmm}
  {steps : List Step}

/-- An operation is lowered to its instructions, or loads a literal. -/
lemma lower_eq_ok (lowered : lower abi addresses pool op = .ok (steps, pool')) :
    steps = select abi addresses op ∨ op.targets = [] ∧ ∃ code, steps = Step.plain code := by
  unfold lower at lowered
  split at lowered
  · split at lowered
    · cases lowered
      exact .inl rfl
    · split at lowered
      · cases lowered
        exact .inr ⟨rfl, _, rfl⟩
      · cases lowered
  · cases lowered
    exact .inl rfl

lemma exists_steps_of_lower {pieces : List Piece}
    (lowered : (backend abi addresses).lower pool op = .ok (pieces, pool')) :
    ∃ steps, lower abi addresses pool op = .ok (steps, pool') ∧ pieces = steps.map Step.piece := by
  unfold backend at lowered
  dsimp only at lowered
  cases ran : lower abi addresses pool op with
  | error e =>
    rw [ran] at lowered
    cases lowered
  | ok r =>
    rw [ran] at lowered
    cases lowered
    exact ⟨r.1, rfl, rfl⟩

lemma lawful (abi : Abi) (addresses : Addresses) : (backend abi addresses).Lawful 1 := by
  refine ⟨fun lowered piece mem => ?_, fun lowered target => ?_, fun failed f => ?_⟩
  · obtain ⟨steps, ran, rfl⟩ := exists_steps_of_lower lowered
    obtain ⟨step, among, rfl⟩ := List.mem_map.1 mem
    refine Step.fits_piece ?_
    obtain rfl | ⟨-, code, rfl⟩ := lower_eq_ok ran
    · exact allFit_select abi addresses _ step among
    · exact Step.allFit_plain code step among
  · obtain ⟨steps, ran, rfl⟩ := exists_steps_of_lower lowered
    rw [Step.filterMap_piece]
    obtain rfl | ⟨none, code, rfl⟩ := lower_eq_ok ran
    · exact mem_select abi addresses _ target
    · rw [Step.filterMap_plain, none]
  · unfold backend at failed
    dsimp only at failed
    unfold lower at failed
    split at failed
    · split at failed
      · cases failed
      · split at failed <;> cases failed
        exact nofun
    · cases failed

end X64

/-! ### AArch64 -/

namespace A64

namespace Step

@[simp]
lemma target_jump (target : JumpTarget) : (jump target).target = some target := rfl

@[simp]
lemma target_branch (cond : Cond) (target : JumpTarget) :
    (branch cond target).target = some target := rfl

lemma fits_piece (step : Step) : step.piece.Fits 4 where
  dvd_length := Nat.dvd_refl 4
  field branches := by
    obtain ⟨target, -, same⟩ := Option.map_eq_some_iff.1 branches
    cases same
    exact ⟨Nat.le_refl 4, Nat.dvd_zero 4, .inr (Nat.dvd_refl 4)⟩

end Step

section Select

variable {α β : Type} (literals : Literals)

@[simp]
lemma Select.fst_pure (a : α) : ((pure a : Select α) literals).1 = a := rfl

@[simp]
lemma Select.fst_map (f : α → β) (m : Select α) : ((f <$> m) literals).1 = f (m literals).1 := rfl

@[simp]
lemma Select.fst_bind (m : Select α) (f : α → Select β) :
    ((m >>= f) literals).1 = (f (m literals).1 (m literals).2).1 := rfl

end Select

/-- The open branches of an operation go to its targets. -/
lemma filterMap_select (addresses : Addresses) (op : Operation Reg DReg) (literals : Literals) :
    (select addresses op literals).1.filterMap Step.target = op.targets := by
  cases op
  case move dst src | moveFloat dst src =>
    simp only [select, Select.fst_pure]
    split <;> simp [Operation.targets]
  case divide remainder dst src onZero =>
    simp only [select, divide]
    split <;> simp [Operation.targets]
  all_goals simp [select, reserve, callRuntime, Operation.targets]

/-- The AArch64 backend is lawful, with instructions of four bytes. -/
lemma lawful (addresses : Addresses) : (backend addresses).Lawful 4 := by
  refine ⟨fun {literals op} _ _ lowered piece mem => ?_, fun {literals op} _ _ lowered target =>
    ?_, nofun⟩
  · cases lowered
    obtain ⟨step, -, rfl⟩ := List.mem_map.1 mem
    exact Step.fits_piece step
  · have aims := filterMap_select addresses op literals
    rw [← Step.filterMap_piece] at aims
    cases lowered
    exact iff_of_eq (congrArg (target ∈ ·) aims)

end A64

end StackMachine
