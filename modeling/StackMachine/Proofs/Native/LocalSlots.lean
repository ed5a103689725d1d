import StackMachine.Proofs.Native.Ownership
import StackMachine.Proofs.Propagation

/-!
# The range of locals

The frame of a method has a word for every local that its instructions name.  Interpretation never
changes the number of words of a frame, so an access to a local fails just if the local has a
negative number.  Compiled code has its locals after the other slots of its frame, and names none
beyond, as long as 32 bits can tell the number of slots (`Gen.locals_in_range`).
-/

namespace StackMachine

open Exec

namespace Interpreter

variable {method : Method} {receiver slot : Word} {s t : State} {fuel ip k : Nat}

/-- While a method is interpreted, its frame has a word for the instance and one for each local. -/
lemma Reaches.frameSizes_eq
    (reaches : Reaches (RuntimeCall.perform (Call.invokeWith Call.nativeBody fuel)) method 0
      (s.entered method receiver) ip t) :
    t.frameSizes = (method.localWords + 1) :: s.frameSizes := by
  have calls := RuntimeCall.does_perform sizes_basis.toBasis
    (fun task => Ends.mono (RuntimeCall.leaves_runTask task).does
      (congrArg fun c : Context => c.frames.map fun f => f.mem.size) fun _ => trivial)
    fun method receiver site s => ⟨fun a t run => congrArg (List.map _)
      ((Call.restored_invokeWith Call.apart_nativeBody fuel method receiver site s).1 a t
        run).frames, fun _ _ _ => trivial⟩
  rw [reaches.does sizes_basis calls]
  refine congrArg (· :: _) ?_
  show (s.machine.pool.next.enter method receiver).mem.size = _
  simp [Frame.enter]

/-- A local of the innermost frame is found. -/
lemma localPlace_eq {rest : List Nat} (sizes : s.frameSizes = (method.localWords + 1) :: rest)
    (index : Word.toIndex? slot = some k) (bound : k < method.localWords) :
    localPlace slot s = .ok (k + 1) s := by
  obtain ⟨f, outer, frames, size, -⟩ := List.map_eq_cons_iff.1 sizes
  have place : f.place? slot = some (k + 1) := by
    rw [Frame.place?, index, size]
    exact if_pos (Nat.succ_lt_succ bound)
  rw [localPlace, bind_of_ok (asksFrame_eq frames _), place]
  rfl

/-- There is no local with a negative number. -/
lemma exists_localPlace_error (negative : slot < 0) (s : State) :
    ∃ locals, localPlace slot s = .error (.fault { cause := .indexOverBounds slot locals }) s := by
  have none (f : Frame) : f.place? slot = none := by
    rw [Frame.place?, Word.toIndex?, if_pos negative]
  refine ⟨Word.ofNat (s.context.frames.headD Frame.blank).locals, ?_⟩
  rw [localPlace, bind_of_ok (asksFrame_eq_headD _ s), none]
  rfl

end Interpreter

namespace Native.Gen

variable {γ φ : Type} [DecidableEq γ] [DecidableEq φ]

/-- In both engines the locals that a method names are in its frame.  The interpreter reads and
writes them, at every moment of its run, unless the operand is negative, and such a method is not
compiled.  The slots that compiled code uses for locals, or has pending, are those between the other
slots and the end of the frame, if its size is a number of 32 bits. -/
theorem locals_in_range {ints : RegisterPool γ} {floats : RegisterPool φ}
    (distinctInts : ints.Distinct) (distinctFloats : floats.Distinct) (scope : Scope) :
    (∀ fuel receiver (s : State) ip t,
        Interpreter.Reaches (RuntimeCall.perform (Call.invokeWith Call.nativeBody fuel))
          scope.method 0 (s.entered scope.method receiver) ip t →
      t.frameSizes = (scope.method.localWords + 1) :: s.frameSizes ∧
        ∀ u, u.frameSizes = t.frameSizes →
        ∀ instr ∈ scope.method.code, instr.action.slots ≠ [] →
          (0 ≤ instr.operand → instr.operand ≠ Int64.maxValue → ∀ slot ∈ instr.action.slots,
            (∃ w, Exec.readLocal slot u = .ok w u) ∧
              ∀ w, ∃ v, Exec.writeLocal slot w u = .ok () v ∧ v.frameSizes = u.frameSizes) ∧
          (instr.operand < 0 → ∃ locals,
            Exec.readLocal instr.operand u =
              .error (.fault { cause := .indexOverBounds instr.operand locals }) u ∧
              ∀ w, Exec.writeLocal instr.operand w u =
                .error (.fault { cause := .indexOverBounds instr.operand locals }) u)) ∧
    (∀ instr ∈ scope.method.code, instr.action.slots ≠ [] → instr.operand < 0 →
      ∀ t, method scope { ints, floats } ≠ .ok () t) ∧
    (localsBase + scope.method.localWords < 2 ^ 32 →
      (∀ n ip s, visit scope n { ints, floats } = .ok ip s →
        s.Uses (layoutLocals scope.method.localWords) ∧
        ∀ u ∈ s.pending, ∀ k, u.local? = some k →
          localsBase ≤ localSlot k ∧
            localSlot k < frameSlots (layoutLocals scope.method.localWords)) ∧
      ∀ t, method scope { ints, floats } = .ok () t →
        t.Uses (layoutLocals scope.method.localWords)) := by
  refine ⟨fun fuel receiver s ip t reaches => ?_, fun instr inCode named negative t run => ?_,
    fun fits => ?_⟩
  · have sizes := reaches.frameSizes_eq
    refine ⟨sizes, fun u same instr inCode named => ⟨fun nonneg small slot mem => ?_,
      fun negative => ?_⟩⟩
    · obtain ⟨k, index, bound⟩ := instr.slots_inFrame inCode nonneg small slot mem
      have place := Interpreter.localPlace_eq (same.trans sizes) index bound
      refine ⟨⟨_, (Exec.bind_of_ok place).trans (Exec.asksFrame_eq_headD _ u)⟩, fun w => ?_⟩
      have written : Exec.writeLocal slot w u = .ok () _ := Exec.bind_of_ok place
      exact ⟨_, written, (Interpreter.does_writeLocal Exec.sizes_basis slot w u).1 _ _ written⟩
    · obtain ⟨locals, fails⟩ := Interpreter.exists_localPlace_error negative u
      exact ⟨locals, Exec.bind_of_error fails, fun w => Exec.bind_of_error fails⟩
  · have wellFormed := (Boundary.start run distinctInts distinctFloats).wellFormed
    obtain ⟨k, index, -⟩ := wellFormed.slots instr inCode _ (instr.operand_mem_slots named)
    exact absurd negative (Int64.not_lt.2 (Word.toIndex?_eq_some_iff.1 index).1)
  · rw [layoutLocals_of_lt (Nat.lt_of_le_of_lt (Nat.le_add_left _ _) fits)]
    refine ⟨fun n ip s run => ?_, fun t run => ?_⟩
    · have h := orderly_visit distinctInts distinctFloats run
      refine ⟨h.uses, fun u mem k isLocal => ⟨Nat.le_add_right _ _, ?_⟩⟩
      exact Nat.add_lt_add_left (h.owned.locals u mem k isLocal) _
    · obtain ⟨u, h, -, rfl⟩ := exists_orderly distinctInts distinctFloats run
      refine fun op mem => (Array.mem_append.1 mem).elim (h.uses op) fun stub => ?_
      have none : ∀ op ∈ stubs (γ := γ) (φ := φ), op.slots = [] := by
        simp [stubs, FaultKind.all, Operation.slots]
      rw [none op (List.mem_toArray.1 stub)]
      exact List.forall_mem_nil _

/-- Copies a function value to the last two of five locals. -/
def copying : Scope where
  program := {}
  method := {
    name := "copying"
    code := #[Build.loadFuncLocal 0, Build.storeFuncLocal 3, Build.leave] }

/-- Its compiled code names the last slot of the frame, and none beyond. -/
theorem locals_in_range_copying : ∃ t,
    method copying { ints := (X64.backend .sysV).ints, floats := (X64.backend .sysV).floats } =
      .ok () t ∧
      (∃ op ∈ t.ops, localSlot 4 ∈ op.slots) ∧ t.Uses 5 := by
  have compiled : (match method copying
    { ints := (X64.backend .sysV).ints, floats := (X64.backend .sysV).floats } with
      | .ok _ t => t.ops.any fun op => op.slots.contains (localSlot 4)
      | .error _ _ => false) = true := by decide +kernel
  split at compiled
  · next t run =>
    obtain ⟨i, bound, named⟩ := Array.any_eq_true.1 compiled
    obtain ⟨-, -, slots⟩ := locals_in_range (X64.distinct_ints _ _) (X64.distinct_floats _ _)
      copying
    exact ⟨t, run, ⟨_, Array.getElem_mem bound, List.contains_iff_mem.1 named⟩,
      (slots (by decide +kernel)).2 t run⟩
  · cases compiled

end Native.Gen

end StackMachine
