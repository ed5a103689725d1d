import StackMachine.Proofs.A64.Selection
import StackMachine.Proofs.X64.Selection

/-!
# Integer operations on every processor

The code of an integer operation is different for each processor and calling convention, but the
words it leaves are not: they are those of one function of the operands
(`Hardware.ComputesIntegers`).  So a method cannot tell from its integers where it runs
(`Hardware.Agree`).
-/

namespace StackMachine.Native

/-- Hardware: how it executes the code that operations are lowered to, and what its states show. -/
structure Hardware (R F S : Type) where
  /-- The code of an operation takes a state to one with a property, leaving by a branch to a target
  or at its end. -/
  executes : Operation R F → S → Option JumpTarget → (S → Prop) → Prop
  regs : S → R → Word
  src : S → Src R → Word
  /-- The integer registers that are allocated. -/
  intRegs : List R
  offers : Src R → Prop
  /-- Two states differ at most in some allocated registers and in what is never allocated. -/
  keeps : List R → S → S → Prop

namespace Hardware

variable {R F S R' F' S' : Type}

/-- A destination and an operand hold two words. -/
structure Operands (p : Hardware R F S) (s : S) (dst : R) (src : Src R) (a b : Word) : Prop where
  allocated : dst ∈ p.intRegs
  offered : p.offers src
  left : p.regs s dst = a
  right : p.src s src = b

/-- In a state the truth value of each relation can be set, and the branch on it is taken exactly
when it holds. -/
structure Decides (p : Hardware R F S) (holds : Comparison → Bool) (s : S) : Prop where
  setCond : ∀ relation, ∀ r ∈ p.intRegs, p.executes (.setCond r relation) s none fun t =>
    p.regs t r = Word.ofBool (holds relation) ∧ p.keeps [r] s t
  branch : ∀ relation target,
    p.executes (.branch relation target) s (if holds relation then some target else none)
      (p.keeps [] s)

/-- Integer operations leave the words they mean, and nothing else that is allocated changes. -/
structure ComputesIntegers (p : Hardware R F S) : Prop where
  int : ∀ {s dst src a b}, p.Operands s dst src a b → ∀ op, p.executes (.int op dst src) s none
    fun t =>
    p.regs t dst = op.eval a b ∧ p.keeps [dst] s t
  divide : ∀ {s dst src a b}, p.Operands s dst src a b → ∀ remainder onZero,
    p.executes (.divide remainder dst src onZero) s (if b = 0 then some onZero else none) fun t =>
      (b ≠ 0 → p.regs t dst = Word.divide remainder a b) ∧ p.keeps (if b = 0 then [] else [dst]) s t
  compare : ∀ {s dst src a b}, p.Operands s dst src a b → p.executes (.compare dst src) s none
    fun t =>
    p.keeps [] s t ∧ p.Decides (fun relation => relation.evalWord a b) t

/-- From operands of equal values two processors leave equal words, by the same exits. -/
structure Agree (p : Hardware R F S) (q : Hardware R' F' S') : Prop where
  int : ∀ {s dst src s' dst' src' a b}, p.Operands s dst src a b → q.Operands s' dst' src' a b →
    ∀ op, ∃ w, (p.executes (.int op dst src) s none fun t => p.regs t dst = w ∧ p.keeps [dst] s t) ∧
    q.executes (.int op dst' src') s' none fun t => q.regs t dst' = w ∧ q.keeps [dst'] s' t
  divide : ∀ {s dst src s' dst' src' a b}, p.Operands s dst src a b → q.Operands s' dst' src' a b →
      ∀ remainder onZero, (p.executes (.divide remainder dst src onZero) s (some onZero)
        (p.keeps [] s) ∧
        q.executes (.divide remainder dst' src' onZero) s' (some onZero) (q.keeps [] s')) ∨
      ∃ w, (p.executes (.divide remainder dst src onZero) s none fun t => p.regs t dst = w ∧
        p.keeps [dst] s t) ∧
        q.executes (.divide remainder dst' src' onZero) s' none fun t => q.regs t dst' = w ∧
        q.keeps [dst'] s' t
  compare : ∀ {s dst src s' dst' src' a b}, p.Operands s dst src a b → q.Operands s' dst' src' a b →
    ∃ holds, (p.executes (.compare dst src) s none fun t => p.keeps [] s t ∧ p.Decides holds t) ∧
    q.executes (.compare dst' src') s' none fun t => q.keeps [] s' t ∧ q.Decides holds t

/-- Hardwares that compute what integer operations mean agree. -/
lemma ComputesIntegers.agree {p : Hardware R F S} {q : Hardware R' F' S'}
    (first : p.ComputesIntegers) (second : q.ComputesIntegers) : p.Agree q where
  int operands operands' op := ⟨_, first.int operands op, second.int operands' op⟩
  divide {_ _ _ _ _ _ a b} operands operands' remainder onZero := by
    have here := first.divide operands remainder onZero
    have there := second.divide operands' remainder onZero
    by_cases zero : b = 0
    · simp only [zero, ne_eq, not_true_eq_false, false_implies, true_and, if_true] at here there
      exact .inl ⟨here, there⟩
    · simp only [zero, ne_eq, not_false_eq_true, true_implies, if_false] at here there
      exact .inr ⟨_, here, there⟩
  compare operands operands' := ⟨_, first.compare operands, second.compare operands'⟩

end Hardware

end StackMachine.Native

namespace StackMachine.X64

open Native

/-- An x86-64 processor under a calling convention. -/
def hardware (abi : Abi) (addresses : Addresses) : Hardware Reg Xmm Cpu where
  executes := Executes abi addresses
  regs := Cpu.regs
  src := Cpu.src
  intRegs := abi.intRegs
  offers := abi.Offers
  keeps := Keeps abi

lemma hardware_computesIntegers (abi : Abi) (addresses : Addresses) :
    (hardware abi addresses).ComputesIntegers where
  int {s dst src _ _} operands op := by
    obtain ⟨allocated, offered, rfl, rfl⟩ := operands
    obtain ⟨t, run, result, spares⟩ := exec_intOp s op allocated offered
    exact .of_plain (fun _ => rfl) (encodable_intOp op dst src) run
      ⟨result, Keeps.of_spares (List.forall_mem_singleton.2 allocated) spares⟩
  divide {s _ _ _ _} operands remainder onZero := by
    obtain ⟨allocated, offered, rfl, rfl⟩ := operands
    exact .divide s remainder onZero allocated offered
  compare {s dst src _ _} operands := by
    obtain ⟨allocated, offered, rfl, rfl⟩ := operands
    obtain ⟨t, run, flags, keeps⟩ := exists_exec_compare s allocated src
    have test (relation : Comparison) :
        (condOf relation).holds? t.flags = some (relation.evalWord (s.regs dst) (s.src src)) :=
      flags ▸ holds?_condOf_cmp relation (s.regs dst) (s.src src)
    refine .of_plain (fun _ => rfl) (encodable_alu .cmp dst src) run
      ⟨keeps, ⟨fun relation r mem => ?_, ?_⟩⟩
    · exact .setCond mem (test relation)
    · exact fun relation target => .branch (test relation) (Keeps.of_spares (by simp) (.refl t))

end StackMachine.X64

namespace StackMachine.A64

open Native

/-- An AArch64 processor. -/
def hardware (addresses : Addresses) : Hardware Reg DReg Cpu where
  executes := Executes addresses
  regs := Cpu.regs
  src := Cpu.src
  intRegs := intRegs
  offers := Offers
  keeps := Keeps

lemma lower_int (addresses : Addresses) (op : IntOp) (dst : Reg) (src : Src Reg) (l : Literals) :
    (backend addresses).lower l (.int op dst src) =
      .ok ((Step.plain (intOp op dst src l).1).map Step.piece, (intOp op dst src l).2) := rfl

lemma hardware_computesIntegers (addresses : Addresses) :
    (hardware addresses).ComputesIntegers where
  int {s dst src _ _} operands op := by
    obtain ⟨allocated, offered, rfl, rfl⟩ := operands
    refine .of_plain (intOp op dst src) (lower_int addresses op dst src)
      fun l final reached leads pool => ?_
    obtain ⟨t, run, result, spares⟩ := exec_intOp op allocated offered reached s leads pool
    exact ⟨t, run, result, Keeps.of_spares (List.forall_mem_singleton.2 allocated) spares⟩
  divide {s _ _ _ _} operands remainder onZero := by
    obtain ⟨allocated, offered, rfl, rfl⟩ := operands
    exact .divide s remainder onZero allocated offered
  compare {s dst src _ _} operands := by
    obtain ⟨allocated, offered, rfl, rfl⟩ := operands
    refine .of_plain (compare dst src) (fun _ => rfl) fun l final reached leads pool => ?_
    obtain ⟨t, run, flags, spares⟩ := exec_compare allocated offered reached s leads pool
    refine ⟨t, run, Keeps.of_spares (by simp) spares, ⟨fun relation r mem => ?_, ?_⟩⟩
    · exact .setCond mem (flags.holds relation)
    · exact fun relation target => .branch (flags.holds relation)
        (Keeps.of_spares (by simp) (.refl t))

end StackMachine.A64

namespace StackMachine

open Native

/-- **Every backend computes the same integers.**  On AArch64, from every state that holds the
literal pool of the finished method, and on x86-64 under both calling conventions:

* an operation leaves its value in the destination;
* a division leaves by its branch exactly when the divisor is 0, and otherwise leaves the wrapped
  quotient or remainder;
* after a comparison the truth value of each relation can be set, and the branch on a relation is
  taken exactly when the relation holds.

No other register that can be allocated changes, and the stack pointer, the frame pointer, the slots
and memory stay as they are.  So from equal operands the two processors leave equal words by the
same exits. -/
theorem backends_compute_integers (addresses : Addresses) :
    (A64.hardware addresses).ComputesIntegers ∧
    ∀ abi, (X64.hardware abi addresses).ComputesIntegers ∧
        (A64.hardware addresses).Agree (X64.hardware abi addresses) :=
  ⟨A64.hardware_computesIntegers addresses, fun abi => ⟨X64.hardware_computesIntegers abi addresses,
    (A64.hardware_computesIntegers addresses).agree (X64.hardware_computesIntegers abi addresses)⟩⟩

/-- A wide constant that comes from the pool, whose address is in the frame at the stack pointer. -/
theorem backends_compute_integers_pooled :
    let value : Word := 0x123456789ABCDEF0
    let pool : A64.Literals := { ints := ⟨128, [value.toUInt64]⟩ }
    let memory := (ByteMemory.writeWord (fun _ => 0) 80 4096).writeWord (4096 + 512) value
    let s : A64.Cpu := ⟨fun _ => 0, fun _ => 0, ⟨false, false, false, false⟩, memory⟩
    s.HoldsPool pool ∧ ∃ pieces t, (A64.backend).lower {} (.int .xor .x19 (.imm value)) =
      .ok (pieces, pool) ∧
      t.regs .x19 = value ∧ t.memory = memory ∧ A64.Runs (pieces.flatMap (A64.linked 0)) (0, s)
      (12, t) := by
  intro value pool memory s
  have holds : s.HoldsPool pool := by
    intro index word stands
    have base : s.src (.slot FrameSlot.literals.index) = 4096 := by decide +kernel
    have entries : ∀ index : Fin 192, memory.readWord (4096 + Word.ofNat (8 * index)) =
        (pool.contents.getD index 0).toInt64 := by decide +kernel
    have inside : index < 192 := (List.getElem?_eq_some_iff.1 stands).1
    rw [base, entries ⟨index, inside⟩, List.getD_eq_getElem?_getD, stands]
    rfl
  refine ⟨holds, ?_⟩
  let code : List A64.Instr := [A64.loadPoolBase, .ldr A64.valueScratch A64.addrScratch 512,
    .reg .eor .x19 .x19 A64.valueScratch]
  let selected : List A64.Instr × A64.Literals := A64.intOp .xor .x19 (.imm value) {}
  have fromPool : selected = (code, pool) := by decide +kernel
  have lowers : (A64.backend).lower {} (.int .xor .x19 (.imm value)) =
      .ok ((Step.plain code).map Step.piece, pool) := by
    rw [A64.lower_int]
    change Except.ok ((Step.plain selected.1).map Step.piece, selected.2) = _
    rw [fromPool]
  have operands : (A64.hardware {}).Operands s .x19 (.imm value) 0 value :=
    ⟨by decide, trivial, rfl, rfl⟩
  obtain ⟨pieces, m, lowers', runs⟩ := (backends_compute_integers {}).1.int operands .xor {} .refl
  obtain ⟨rfl, rfl⟩ : (Step.plain code).map Step.piece = pieces ∧ pool = m :=
    Prod.mk.inj (Except.ok.inj (lowers.symm.trans lowers'))
  obtain ⟨t, ⟨result, keeps⟩, runs⟩ := runs pool .refl holds
  obtain ⟨offset, leaves, run⟩ := runs _ 0 0 (by decide) (by decide) (List.prefix_refl _)
  have atEnd : offset = 12 := leaves
  exact ⟨_, t, lowers, result.trans (by decide), keeps.memory, atEnd ▸ run⟩

end StackMachine
