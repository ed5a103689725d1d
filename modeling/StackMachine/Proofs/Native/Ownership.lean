import StackMachine.Bytecode.Builder
import StackMachine.Proofs.Native.Entry

/-!
# Registers on loan while a method is compiled

`Gen.visit n` compiles a method up to the boundary after `n` steps of the generator; a step compiles
an instruction, or a comparison together with the jump after it.  At each of these boundaries the
registers on loan are just those that pending values are in, and no two pending values share one
(`GenState.Tidy`).  So no loan is forgotten, and when a method is compiled none is left
(`Gen.tidy_of_visit`).
-/

namespace StackMachine.Native

variable {γ φ : Type} {s : GenState γ φ}

/-- The registers on loan are those of the pending values, and each of those has its own. -/
structure GenState.Tidy (s : GenState γ φ) : Prop where
  ints : ∀ reg, reg ∈ s.ints.live ↔ ∃ lease, .reg lease ∈ s.pending ∧ lease.reg = reg
  floats : ∀ reg, reg ∈ s.floats.live ↔ ∃ lease, .floatReg lease ∈ s.pending ∧ lease.reg = reg
  nodupInts : (s.pending.filterMap Pending.int?).Nodup
  nodupFloats : (s.pending.filterMap Pending.float?).Nodup

/-- Values that the generator has charge of have their own registers, and no other is on loan. -/
lemma Owned.tidy {locals : Nat} (h : Owned locals s.ints s.floats s.pending) : s.Tidy where
  ints reg := by
    rw [h.ints.live, List.mem_filterMap]
    constructor
    · rintro ⟨u, mem, held⟩
      cases u <;> cases held
      exact ⟨_, mem, rfl⟩
    · rintro ⟨lease, mem, rfl⟩
      exact ⟨_, mem, rfl⟩
  floats reg := by
    rw [h.floats.live, List.mem_filterMap]
    constructor
    · rintro ⟨u, mem, held⟩
      cases u <;> cases held
      exact ⟨_, mem, rfl⟩
    · rintro ⟨lease, mem, rfl⟩
      exact ⟨_, mem, rfl⟩
  nodupInts := (List.nodup_append.1 h.ints.nodup).1
  nodupFloats := (List.nodup_append.1 h.floats.nodup).1

/-- Without pending values no register is on loan. -/
lemma GenState.Tidy.live_eq_nil (tidy : s.Tidy) (empty : s.pending = []) :
    s.ints.live = [] ∧ s.floats.live = [] := by
  constructor
  · refine List.eq_nil_iff_forall_not_mem.2 fun reg mem => ?_
    obtain ⟨lease, pending, -⟩ := (tidy.ints reg).1 mem
    rw [empty] at pending
    cases pending
  · refine List.eq_nil_iff_forall_not_mem.2 fun reg mem => ?_
    obtain ⟨lease, pending, -⟩ := (tidy.floats reg).1 mem
    rw [empty] at pending
    cases pending

namespace GenState

/-- The pools are not exhausted, the generator has charge of the pending values, and the code so far
names the slots that compiled code uses. -/
structure Orderly (locals : Nat) (s : GenState γ φ) : Prop where
  alive : s.Alive
  owned : Owned locals s.ints s.floats s.pending
  uses : s.Uses locals

/-- Reserving room leaves all that alone. -/
lemma Orderly.reserving {locals : Nat} (h : s.Orderly locals) : s.reserving.Orderly locals := by
  rcases s.reserving_cases with ⟨-, same⟩ | ⟨-, -, same⟩ | ⟨place, -, -, same⟩
  all_goals rw [same]
  · exact h
  · exact ⟨h.alive, h.owned, h.uses.push (List.forall_mem_nil _)⟩
  · refine ⟨h.alive, h.owned, fun op mem => ?_⟩
    obtain ⟨i, at_i⟩ := Array.mem_iff_getElem?.1 mem
    rw [Gen.widen, Array.getElem?_modify] at at_i
    split at at_i
    · obtain ⟨old, at_old, rfl⟩ := Option.map_eq_some_iff.1 at_i
      have before := h.uses old (Array.mem_of_getElem? at_old)
      cases old <;> exact before
    · exact h.uses op (Array.mem_of_getElem? at_i)

end GenState

variable [DecidableEq γ] [DecidableEq φ]

namespace Gen

variable {scope : Scope} {s t : GenState γ φ}

/-- A step that does not fail keeps the generator in order. -/
lemma orderly_step {ip : Nat} {instr : Instruction} {fused : Bool}
    (at_ip : scope.method.code[ip]? = some instr)
    (run : step scope ip instr scope.method.code[ip + 1]? s = .ok fused t)
    (h : s.Orderly scope.method.localWords) :
    t.Orderly scope.method.localWords := by
  obtain ⟨u, compiled, alive, rfl⟩ := step_eq_ok run
  obtain ⟨-, known⟩ := instruction_known at_ip (fun writes => if_pos writes) compiled
  obtain ⟨owned, uses⟩ := known alive h.owned
  exact .reserving ⟨alive, owned, uses h.uses⟩

lemma orderly_steps (n : Nat) :
    ∀ {ip ip' : Nat} {s t : GenState γ φ}, steps scope n ip s = .ok ip' t →
    s.Orderly scope.method.localWords → t.Orderly scope.method.localWords := by
  induction n with
  | zero =>
    intro ip ip' s t run h
    cases run
    exact h
  | succ n ih =>
    intro ip ip' s t run h
    cases at_ip : scope.method.code[ip]? with
    | none =>
      simp only [steps, at_ip] at run
      cases run
      exact h
    | some instr =>
      simp only [steps, at_ip] at run
      obtain ⟨fused, u, first, later⟩ := bind_eq_ok.1 run
      exact ih later (orderly_step at_ip first h)

section

variable {ints : RegisterPool γ} {floats : RegisterPool φ} (distinctInts : ints.Distinct)
  (distinctFloats : floats.Distinct)
include distinctInts distinctFloats

/-- Before anything is compiled, no register is on loan. -/
lemma orderly_visit {n ip : Nat} (run : visit scope n { ints, floats } = .ok ip s) :
    s.Orderly scope.method.localWords := by
  obtain ⟨_, u, entered, run⟩ := bind_eq_ok.1 run
  cases entered
  refine orderly_steps n run ⟨⟨distinctInts.alive, distinctFloats.alive⟩,
    ⟨distinctInts.lends, distinctFloats.lends, nofun, nofun⟩, .push ?_ (List.forall_mem_nil _)⟩
  exact fun op mem => absurd mem (Array.not_mem_empty op)

/-- At the end the pending values have been written to memory, and the stubs follow. -/
lemma exists_orderly (run : method scope { ints, floats } = .ok () t) :
    ∃ u : GenState γ φ, u.Orderly scope.method.localWords ∧ u.pending = [] ∧
      t = { u with ops := u.ops ++ stubs.toArray } := by
  rw [method_eq_visit] at run
  obtain ⟨ip, s, visited, finished⟩ := bind_eq_ok.1 run
  have h := orderly_visit distinctInts distinctFloats visited
  obtain ⟨u, flushed, rfl⟩ := finish_eq_ok finished
  obtain ⟨-, -, lives, known⟩ := flushAll_known scope flushed
  obtain ⟨owned, uses⟩ := known h.alive h.owned
  exact ⟨u, ⟨lives h.alive, owned, uses h.uses⟩, Triple.flushAll_pending flushed, rfl⟩

end

/-- However many steps of a method are compiled, the registers on loan are those of the pending
values, no two of which share one; and when the method is compiled, none is on loan. -/
theorem tidy_of_visit {ints : RegisterPool γ} {floats : RegisterPool φ}
    (distinctInts : ints.Distinct) (distinctFloats : floats.Distinct) :
    (∀ n ip s, visit scope n { ints, floats } = .ok ip s → s.Tidy) ∧
    ∀ t, method scope { ints, floats } = .ok () t →
        t.ints.live.length = 0 ∧ t.floats.live.length = 0 := by
  constructor
  · intro n ip s run
    exact (orderly_visit distinctInts distinctFloats run).owned.tidy
  · intro t run
    obtain ⟨u, h, empty, rfl⟩ := exists_orderly distinctInts distinctFloats run
    obtain ⟨ints, floats⟩ := h.owned.tidy.live_eq_nil empty
    exact ⟨congrArg List.length ints, congrArg List.length floats⟩

/-- Adds two locals, and converts a third. -/
def mixed : Scope where
  program := {}
  method := {
    name := "mixed"
    code := #[Build.loadLocal 0, Build.loadLocal 1, Build.op .addInt, Build.loadLocal 2,
      Build.op .i2f, Build.op .popFloat, Build.leave] }

/-- After the conversion the sum and the double are pending, each in its register. -/
theorem tidy_of_visit_mixed : ∃ ip s,
    visit mixed 5 { ints := (X64.backend .sysV).ints, floats := (X64.backend .sysV).floats } =
      .ok ip s ∧ s.ints.live = [.rbx] ∧ s.floats.live = [⟨1⟩] ∧ s.pending.length = 2 ∧ s.Tidy := by
  have visited : (match visit mixed 5
    { ints := (X64.backend .sysV).ints, floats := (X64.backend .sysV).floats } with
      | .ok _ s => decide (s.ints.live = [.rbx] ∧ s.floats.live = [⟨1⟩] ∧ s.pending.length = 2)
      | .error _ _ => false) = true := by decide +kernel
  split at visited
  · next ip s run =>
    obtain ⟨ints, floats, two⟩ := of_decide_eq_true visited
    have tidy := (tidy_of_visit (X64.distinct_ints _ _) (X64.distinct_floats _ _)).1 5 ip s run
    exact ⟨ip, s, run, ints, floats, two, tidy⟩
  · cases visited

end Gen

end StackMachine.Native
