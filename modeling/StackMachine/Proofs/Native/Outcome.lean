import StackMachine.Proofs.Native.Values

/-!
# How compiled instructions end

The operations of an instruction are run through, or they jump: to a fault stub, to a label, or to
the end of the method.  `Next` and `Exits` say what the ideal machine has come to in each case;
which results are meant is a parameter `R`, so that a part of an instruction can be followed without
knowing the whole.
-/

namespace StackMachine.Native

variable {γ φ : Type} [DecidableEq γ] [DecidableEq φ] {scope : Scope} {index : Nat}

/-- The method has a label at a place. -/
def Scope.IsLabel (scope : Scope) (index : Nat) : Prop :=
  ∃ instr, scope.method.code[index]? = some instr ∧ instr.op = .lbl

lemma Scope.IsLabel.lt (isLabel : scope.IsLabel index) : index < scope.method.code.size :=
  let ⟨_, at_index, _⟩ := isLabel
  (Array.getElem?_eq_some_iff.1 at_index).1

/-- A label asks for nothing but to be a label. -/
lemma Scope.IsLabel.action (isLabel : scope.IsLabel index) :
    ∃ instr, scope.method.code[index]? = some instr ∧ instr.action = .label := by
  obtain ⟨instr, at_index, op⟩ := isLabel
  exact ⟨instr, at_index, by rw [Instruction.action, op]⟩

/-- The method calls the runtime. -/
def Scope.CallsRuntime (scope : Scope) : Prop :=
  ∃ instr ∈ scope.method.code, instr.action = .runtime

namespace Execution

/-- A runtime call stopped the method with a fault. -/
structure Halted (x : Execution γ φ) (fault : Fault) (s : State) : Prop where
  callsRuntime : x.scope.CallsRuntime
  halt : s.context.halt ≠ 0
  pending : ∃ names, s.context.pending = some (fault.withTrace names)
  framed : Ideal.Framed x.outer s

/-- Where a jump is taken, the ideal machine has come to a result in `R` that fits its target. -/
def Exits (x : Execution γ φ) (R : Ideal.Result → Prop) : ExitAssertion γ φ
  | .fault kind, _, s =>
    ∃ cause, cause.status? = some kind.status ∧ R (.fault { cause } s.machine) ∧ x.Calm s
  | .instruction i, p, s => x.scope.IsLabel i ∧
    ∃ v, R (.goto i v) ∧ x.Represents 0 [] v.stack v.mem v.machine p s
  | .exit, _, s =>
    (∃ v, R (.leave v) ∧ s.context.stack.Holds v.stack ∧ s.machine = v.machine ∧ x.Calm s) ∨
      ∃ fault, R (.fault fault s.machine) ∧ x.Halted fault s
  | .teardown, _, _ => False

/-- Control passes on, and the ideal machine has come to the next instruction with a result in
`R`. -/
def Next (x : Execution γ φ) (R : Ideal.Result → Prop) : Assertion γ φ where
  known s := Owned x.locals s.ints s.floats s.pending
  holds s c := ∃ v, R (.next v) ∧ (x.Stands [] v).holds s c

variable {x : Execution γ φ} {R R' : Ideal.Result → Prop}

/-- More results are allowed for. -/
lemma Exits.imp {target : JumpTarget} {p : Processor γ φ} {s : State}
    (exits : x.Exits R target p s) (imp : ∀ r, R r → R' r) : x.Exits R' target p s := by
  cases target with
  | fault kind =>
    obtain ⟨cause, status, result, calm⟩ := exits
    exact ⟨cause, status, imp _ result, calm⟩
  | instruction i =>
    obtain ⟨isLabel, v, result, rep⟩ := exits
    exact ⟨isLabel, v, imp _ result, rep⟩
  | exit =>
    rcases exits with ⟨v, result, rest⟩ | ⟨fault, result, halted⟩
    · exact .inl ⟨v, imp _ result, rest⟩
    · exact .inr ⟨fault, imp _ result, halted⟩
  | teardown => exact exits

end Execution

namespace Triple

open Gen Execution

variable {α : Type} {x : Execution γ φ} {E : ExitAssertion γ φ} {closed : Bool}
  {held : List (Pending γ φ × Word)} {v : Ideal} {w : Word} {u : Pending γ φ}
  {P : Assertion γ φ} {g : Gen γ φ α} {Q : α → Assertion γ φ} {R : Ideal.Result → Prop}
  {fact : Prop}

/-- A part that may assume a fact, because it only has to account for runs with it. -/
lemma givenExits (h : Triple x (x.Exits fun r => fact → R r) closed P g Q) :
    Triple x (x.Exits R) closed (P.given fact) g fun a => (Q a).given fact where
  adds := h.adds
  knows := h.knows
  uses := h.uses
  runs allowed run alive grows knows c at_c holds :=
    (h.runs allowed run alive grows knows c at_c holds.2).imp
      (fun _ _ _ exits => exits.imp fun _ result => result holds.1) fun _ after => ⟨holds.1, after⟩

/-- The last part of an instruction, which may assume a fact. -/
lemma assuming
    (h : Triple x (x.Exits fun r => fact → R r) closed P g fun _ => x.Next fun r => fact → R r) :
    Triple x (x.Exits R) closed (P.given fact) g fun _ => x.Next R :=
  h.givenExits.post (fun _ _ => id) fun _ _ _ _ ⟨fact, v, result, after⟩ => ⟨v, result fact, after⟩

/-- The ideal machine stands at the next instruction. -/
lemma toNext (h : Triple x E closed P g fun _ => x.Stands [] v) (result : R (.next v)) :
    Triple x E closed P g fun _ => x.Next R :=
  h.post (fun _ _ => id) fun _ _ _ _ holds => ⟨v, result, holds⟩

/-- An instruction ends with a value that becomes pending. -/
lemma pushNext (result : R (.next (v.push w))) :
    Triple x E closed (x.Stands [(u, w)] v) (Gen.pushPending u) fun _ => x.Next R :=
  pushPending.toNext result

/-- An instruction ends with a value without a register, which becomes pending. -/
lemma pushFresh (noInt : u.int? = none) (noFloat : u.float? = none)
    (inFrame : ∀ k, u.local? = some k → k < x.locals)
    (known : ∀ s, P.known s → (x.Stands [] v).known s)
    (holds : ∀ s c, P.holds s c → (x.Stands [] v).holds s c ∧ R (.next (v.push (u.value c.proc)))) :
    Triple x E closed P (Gen.pushPending u) fun _ => x.Next R := by
  refine still (fun _ run => ?_) (fun run alive knows => ?_) fun run alive knows c before => ?_
  all_goals cases run
  · exact ⟨rfl, .ofSame rfl id (.inl rfl) (fun _ => rfl) rfl⟩
  · exact Owned.add (known _ knows) noInt noFloat inFrame
  · obtain ⟨⟨pend, below, keys, stack, rep⟩, result⟩ := holds _ c before
    exact ⟨_, result, (u, u.value c.proc) :: pend, below, congrArg (u :: ·) keys,
      congrArg (u.value c.proc :: ·) stack, rep.add rfl⟩

/-- A check by the contents of the registers: it passes control on, or the ideal machine stops with
the cause that the check stands for. -/
lemma checkFault {op : Operation γ φ} (kind : FaultKind) {cause : Cause} (proper : op.isProper)
    (status : cause.status? = some kind.status)
    (performs : ∀ s c, (x.Stands held v).holds s c →
      (¬fact ∧ x.perform op c.proc c.state = .ok (c.proc, .goto (.fault kind)) c.state) ∨
      (fact ∧ x.perform op c.proc c.state = .ok (c.proc, .next) c.state))
    (fails : ¬fact → R (v.fails cause)) (none : op.slots = []) :
    Triple x (x.Exits R) closed (x.Stands held v) (Gen.check op)
    fun _ => (x.Stands held v).given fact := by
  refine check proper (fun _ => id) (fun _ _ => id) (fun _ => id) (fun s c known holds => ?_)
    fun _ _ => none ▸ List.forall_mem_nil _
  obtain ⟨failed, run⟩ | ⟨passed, run⟩ := performs s c holds
  · obtain ⟨pend, below, keys, stack, rep⟩ := holds
    refine ⟨c.proc, _, run, .inr ⟨_, rfl, cause, status, ?_, rep.calm⟩⟩
    rw [rep.machine_eq]
    exact fails failed
  · exact ⟨c.proc, _, run, .inl ⟨rfl, passed, holds⟩⟩

lemma popHandle {rest : List Word} (top : v.stack = w :: rest)
    (fails : w = 0 → R ((v.withStack rest).fails .nilDereference)) :
    Triple x (x.Exits R) closed (x.Stands held v) Gen.popHandle fun lease =>
      (x.Stands ((.reg lease, w) :: held) (v.withStack rest)).given (w ≠ 0) := by
  refine (popIntReg top).bind fun lease => (checkFault .nil rfl rfl (fun s c holds => ?_)
    (fun isNil => fails (not_not.1 isNil)) rfl).bind fun _ => done rfl
  have value : c.proc.int lease.reg = w := Stands.value holds
  have run : x.perform (.nilBranch lease.reg (.fault .nil)) c.proc c.state =
      .ok (c.proc, Processor.Flow.when (c.proc.int lease.reg == 0) (.fault .nil)) c.state := rfl
  rw [run, value]
  by_cases isNil : w = 0
  · exact .inl ⟨not_not.2 isNil, by rw [isNil]; rfl⟩
  · refine .inr ⟨isNil, ?_⟩
    rw [Processor.Flow.when, if_neg (by simpa using isNil)]

omit [DecidableEq γ] in
/-- No reservation is open after a handle was checked. -/
lemma popHandle_closes {s t : GenState γ φ} {lease : Lease γ}
    (run : Gen.popHandle s = .ok lease t) : t.openReserve = none := by
  obtain ⟨handle, s', -, run⟩ := bind_eq_ok.1 run
  cases run
  rfl

end Triple

end StackMachine.Native
