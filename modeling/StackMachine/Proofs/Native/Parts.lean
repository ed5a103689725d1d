import StackMachine.Proofs.Native.Boundary

/-!
# The steps that code generation is made of

The generator changes its state in few ways: it appends an operation, counts a word that leaves the
operand stack in memory, closes the open reservation, or does something to the pending values and
the registers.  A relation between states that holds across each of these steps holds across the
code of an instruction (`Gen.Basis.instruction`), so it need not be followed through every kind of
instruction again.  Writing pending values to memory is left out: whether there is room for them is
known only at the start of an instruction.
-/

namespace StackMachine.Native

variable {γ φ : Type}

/-- A target that is a label of the method. -/
def Scope.Labels (scope : Scope) (target : JumpTarget) : Prop :=
  ∃ index, target = .instruction index ∧ scope.IsLabel index

namespace Operation

/-- Where an operation may jump to. -/
def targets : Operation γ φ → List JumpTarget
  | .status _ => [.teardown]
  | .jump target => [target]
  | .divide _ _ _ onZero => [onZero]
  | .branch _ target => [target]
  | .floatCompareBranch _ _ _ _ target => [target]
  | .floatZeroBranch _ target => [target]
  | .nilBranch _ target => [target]
  | .boundsBranch _ _ under above => [under, above]
  | .reserve _ onOverflow => [onOverflow]
  | .callRuntime _ _ _ onHalt => [onHalt]
  | _ => []

/-- Does an operation take a word from the operand stack in memory? -/
def isPop : Operation γ φ → Bool
  | .pop _ | .popFloat _ | .dropTop => true
  | _ => false

/-- Does an operation write a word to the operand stack in memory? -/
def isPush : Operation γ φ → Bool
  | .push _ | .pushFloat _ => true
  | _ => false

/-- Does an operation leave the operand stack in memory alone, and is it no place of a target? -/
def isPlain : Operation γ φ → Bool
  | .bind _ | .reserve _ _ | .callRuntime _ _ _ _ => false
  | op => !op.isPop && !op.isPush

/-- Operations of each kind have their targets: only jumps and branches go to labels, checks go to
the fault that they check for, and what ends the method goes to the exit. -/
def Aims (scope : Scope) : Operation γ φ → Prop
  | .jump target => target = .exit ∨ scope.Labels target
  | .branch _ target | .floatCompareBranch _ _ _ _ target => scope.Labels target
  | .nilBranch _ target => target = .fault .nil
  | .divide _ _ _ target | .floatZeroBranch _ target => target = .fault .divZero
  | .boundsBranch _ _ under above => under = .fault .under ∧ above = .fault .over
  | .reserve _ target => target = .fault .stackOverflow
  | .callRuntime _ _ _ target => target = .exit
  | _ => True

end Operation

/-- The generator after the operation of a runtime call, which takes and leaves words. -/
def GenState.calling (s : GenState γ φ) (scope : Scope) (instr : Instruction) (ip : Nat)
    (shape : Shape) :
    GenState γ φ :=
  { s with
    ops := s.ops.push (.callRuntime (Word.ofNat instr.op.tag) (scope.addresses.code + Word.ofNat ip)
      (Word.ofNat (ip + 1)) .exit)
    covered := s.covered + shape.consumed - shape.produced.length }

namespace Gen

variable {α β : Type} {R : GenState γ φ → GenState γ φ → Prop}

/-- A part of the generator takes a state to a related one, or fails for a reason of its own. -/
structure Does (R : GenState γ φ → GenState γ φ → Prop) (g : Gen γ φ α) : Prop where
  ok : ∀ {s a t}, g s = .ok a t → R s t
  error : ∀ {s e t}, g s = .error e t → ∀ f, e ≠ .fixup f

/-- What a part of the generator does from one state on. -/
structure DoesFrom (R : GenState γ φ → GenState γ φ → Prop) (s : GenState γ φ) (g : Gen γ φ α) :
    Prop where
  ok : ∀ {a t}, g s = .ok a t → R s t
  error : ∀ {e t}, g s = .error e t → ∀ f, e ≠ .fixup f

lemma Does.doesFrom {g : Gen γ φ α} (does : Does R g) (s : GenState γ φ) :
    DoesFrom R s g := ⟨does.ok, does.error⟩

lemma Does.of_ok {g : Gen γ φ α} {f : GenState γ φ → GenState γ φ}
    (runs : ∀ s, ∃ a, g s = .ok a (f s)) (related : ∀ s, R s (f s)) : Does R g := by
  refine ⟨fun {s _ _} run => ?_, fun {s _ _} run => ?_⟩
  all_goals
    obtain ⟨a, ran⟩ := runs s
    cases ran.symm.trans run
  exact related s

lemma Does.throw {e : CompileError} (own : ∀ f, e ≠ .fixup f) : Does R (throw e : Gen γ φ α) where
  ok run := nomatch run
  error run := by
    cases run
    exact own

lemma Does.ite {c : Prop} [Decidable c] {g g' : Gen γ φ α} (yes : Does R g) (no : Does R g') :
    Does R (if c then g else g') := by
  split
  · exact yes
  · exact no

/-- A jump goes to a label of the method, or generation fails. -/
lemma Does.labelTarget_bind {scope : Scope} {target : Word} {f : JumpTarget → Gen γ φ α}
    (next : ∀ index, scope.IsLabel index → Does R (f (.instruction index))) :
    Does R (labelTarget scope target >>= f) := by
  have fails : Does R ((MonadState.get >>= fun s =>
      MonadExcept.throw (.badJumpTarget s.ip target) : Gen γ φ JumpTarget) >>= f) := by
    refine ⟨fun run => ?_, fun run => ?_⟩
    · obtain ⟨_, _, run, -⟩ := bind_eq_ok.1 run
      cases run
    · cases run
      exact nofun
  unfold labelTarget
  cases Word.toIndex? target with
  | none => exact fails
  | some index =>
    by_cases isLabel : scope.method.code[index]?.any fun instr => instr.op = .lbl
    · obtain ⟨instr, at_index, op⟩ := (Option.any_eq_true _ _).1 isLabel
      simp only [if_pos isLabel, pure_bind]
      exact next index ⟨instr, at_index, of_decide_eq_true op⟩
    · simp only [if_neg isLabel]
      exact fails

/-- A relation that holds across each step of the generator. -/
structure Basis (scope : Scope) (R : GenState γ φ → GenState γ φ → Prop) : Prop where
  trans : ∀ {s t u}, R s t → R t u → R s u
  /-- The code and the room on the operand stack stay the same. -/
  quiet : ∀ {s t}, t.ops = s.ops → t.covered = s.covered → t.openReserve = s.openReserve → R s t
  close : ∀ s, R s { s with openReserve := none }
  pushOp : ∀ s op, op.isPlain = true → op.Aims scope → R s { s with ops := s.ops.push op }
  popOp : ∀ s op, op.isPop = true →
    R s { s with ops := s.ops.push op, covered := s.covered + 1, openReserve := none }
  bindOp : ∀ s, R s { s with
    ops := s.ops.push (.bind (.instruction s.ip)), covered := 0, openReserve := none }

namespace Basis

variable {scope : Scope} (h : Basis scope R) {g : Gen γ φ α} {f : α → Gen γ φ β}
  {op : Operation γ φ}
include h

/-! ### Steps in a row -/

lemma refl (s : GenState γ φ) : R s s := h.quiet rfl rfl rfl

lemma pure (a : α) : Does R (Pure.pure a : Gen γ φ α) := .of_ok (fun _ => ⟨_, rfl⟩) h.refl

lemma bindFrom {s : GenState γ φ} (first : DoesFrom R s g)
    (second : ∀ a u, g s = .ok a u → DoesFrom R u (f a)) : DoesFrom R s (g >>= f) where
  ok run := by
    obtain ⟨a, u, run₁, run₂⟩ := bind_eq_ok.1 run
    exact h.trans (first.ok run₁) ((second a u run₁).ok run₂)
  error {e t} run := by
    have run' : EStateM.bind g f s = .error e t := run
    unfold EStateM.bind at run'
    split at run'
    · next run₁ => exact (second _ _ run₁).error run'
    · next failed =>
      cases run'
      exact first.error failed

lemma bind (first : Does R g) (second : ∀ a, Does R (f a)) : Does R (g >>= f) := by
  have both (s : GenState γ φ) : DoesFrom R s (g >>= f) :=
    h.bindFrom (first.doesFrom s) fun a u _ => (second a).doesFrom u
  exact ⟨fun run => (both _).ok run, fun run => (both _).error run⟩

lemma get : Does R (MonadState.get : Gen γ φ (GenState γ φ)) := .of_ok (fun _ => ⟨_, rfl⟩) h.refl

/-- A step that leaves the code and the room alone. -/
lemma alter {f : GenState γ φ → GenState γ φ}
    (quiet : ∀ s, (f s).ops = s.ops ∧ (f s).covered = s.covered ∧
      (f s).openReserve = s.openReserve) :
    Does R (modify f : Gen γ φ PUnit) :=
  .of_ok (fun _ => ⟨_, rfl⟩) fun s => h.quiet (quiet s).1 (quiet s).2.1 (quiet s).2.2

/-- A part that is the whole code of an instruction. -/
lemma ended (does : Does R g) (s : GenState γ φ) :
    DoesFrom R s (do
      let _ ← g
      return false) := (h.bind does fun _ => h.pure false).doesFrom s

/-! ### Single steps -/

lemma emit (plain : op.isPlain = true) (aims : op.Aims scope) : Does R (Gen.emit op) :=
  .of_ok (fun _ => ⟨_, rfl⟩) fun s => h.pushOp s op plain aims

lemma emits (plain : op.isPlain = true) (aims : op.Aims scope) (next : Does R g) :
    Does R (Gen.emit op >>= fun _ => g) := h.bind (h.emit plain aims) fun _ => next

lemma acquireInt : Does R (acquireInt : Gen γ φ (Lease γ)) := .of_ok (fun _ => ⟨_, rfl⟩)
    fun _ => h.quiet rfl rfl rfl

lemma acquireFloat : Does R (acquireFloat : Gen γ φ (Lease φ)) :=
  .of_ok (fun _ => ⟨_, rfl⟩) fun _ => h.quiet rfl rfl rfl

lemma pushPending (value : Pending γ φ) :
    Does R (pushPending value) := h.alter fun _ => ⟨rfl, rfl, rfl⟩

lemma takePending : Does R (takePending : Gen γ φ (Option (Pending γ φ))) where
  ok {s _ _} run := by
    obtain ⟨ops, pending, ints, floats, ip, covered, openReserve⟩ := s
    cases pending <;> cases run <;> exact h.quiet rfl rfl rfl
  error {s _ _} run := by
    obtain ⟨ops, pending, ints, floats, ip, covered, openReserve⟩ := s
    cases pending <;> cases run

lemma closeReserve : Does R (closeReserve : Gen γ φ Unit) := .of_ok (fun _ => ⟨_, rfl⟩) h.close

lemma popMemory : Does R (popMemory : Gen γ φ (Pending γ φ)) :=
  .of_ok (fun _ => ⟨_, rfl⟩) fun s => h.trans (h.acquireInt.ok (s := s) rfl) (h.popOp _ _ rfl)

lemma popMemoryFloat : Does R (popMemoryFloat : Gen γ φ (Pending γ φ)) :=
  .of_ok (fun _ => ⟨_, rfl⟩) fun s => h.trans (h.acquireFloat.ok (s := s) rfl) (h.popOp _ _ rfl)

lemma badShape (reason : ShapeReason) : Does R (badShape reason : Gen γ φ α) := h.bind h.get
    fun _ => .throw nofun

/-- A part that is only taken where no value is pending. -/
lemma unlessPending {reason : ShapeReason} (then_ : Does R g) :
    Does R (do
      unless ← noPending do Gen.badShape reason
      g) := by
  have asks : Does R (noPending : Gen γ φ Bool) := h.bind h.get fun _ => h.pure _
  refine h.bind asks fun empty => ?_
  cases empty with
  | true => exact then_
  | false => exact h.bind (h.badShape reason) fun _ => then_

lemma check (emits : Does R (Gen.emit op)) :
    Does R (check op) := h.bind h.closeReserve fun _ => emits

lemma jumpTo (emits : Does R (Gen.emit op)) :
    Does R (jumpTo op) := h.bind emits fun _ => h.closeReserve

lemma pop : Does R (pop : Gen γ φ (Pending γ φ)) := by
  refine h.bind h.takePending fun value? => ?_
  cases value? with
  | some value => exact h.pure value
  | none => exact h.popMemory

lemma popFloat : Does R (popFloat : Gen γ φ (Pending γ φ)) := by
  refine h.bind h.takePending fun value? => ?_
  cases value? with
  | some value => exact h.pure value
  | none => exact h.popMemoryFloat

lemma readPending (index : Nat) (values : List (Pending γ φ)) :
    Does R (readPending index values) := by
  induction values with
  | nil => exact h.pure []
  | cons value below ih =>
    refine h.bind ih fun below => ?_
    cases value with
    | slot i =>
      exact .ite (h.bind h.acquireInt fun _ => h.emits rfl trivial <| h.pure _) (h.pure _)
    | floatSlot i =>
      exact .ite (h.bind h.acquireFloat fun _ => h.emits rfl trivial <| h.pure _) (h.pure _)
    | _ => exact h.pure _

lemma readLocal (index : Nat) : Does R (readLocal index : Gen γ φ Unit) :=
  h.bind h.get fun _ => h.bind (h.readPending index _) fun _ => h.alter fun _ => ⟨rfl, rfl, rfl⟩

lemma localIndex (instr : Instruction) : Does R (localIndex instr : Gen γ φ Nat) :=
  .ite (h.pure _) (h.bind h.get fun _ => .throw nofun)

lemma writeLocal (index : Nat) (value : Pending γ φ) : Does R (writeLocal index value) := by
  cases value with
  | slot i | floatSlot i => exact .ite (h.pure ()) (h.emit rfl trivial)
  | _ => exact h.emit rfl trivial

lemma writeMemory (base : γ) (disp : Int32) (width : Width) (value : Pending γ φ) :
    Does R (writeMemory base disp width value) := by
  cases value <;> exact h.emit rfl trivial

lemma loadPairLocal (instr : Instruction) : Does R (loadPairLocal instr : Gen γ φ Unit) :=
  h.bind (h.localIndex instr) fun _ => h.bind (h.pushPending _) fun _ => h.pushPending _

lemma loadArg (arg : FrameSlot) : Does R (loadArg arg : Gen γ φ Unit) :=
  h.bind h.acquireInt fun _ => h.emits rfl trivial <| h.pushPending _

lemma swap : Does R (swap : Gen γ φ Unit) :=
  h.bind h.pop fun _ => h.bind h.pop fun _ => h.bind (h.pushPending _) fun _ => h.pushPending _

lemma label : Does R (label : Gen γ φ Unit) := by
  exact h.unlessPending (.of_ok (fun _ => ⟨_, rfl⟩) h.bindOp)

lemma emitSpills {ρ : Type} {op : Nat → ρ → Operation γ φ}
    (emits : ∀ slot reg, Does R (Gen.emit (op slot reg))) (slot : Nat) (regs : List ρ) :
    Does R (emitSpills op slot regs) := by
  induction regs generalizing slot with
  | nil => exact h.pure ()
  | cons reg rest ih => exact h.bind (emits slot reg) fun _ => ih (slot + 1)

lemma runtimeShape (instr : Instruction) : Does R (runtimeShape scope instr : Gen γ φ Shape) := by
  unfold Gen.runtimeShape
  split
  · cases scope.program.callee? instr.operand instr.operand2 with
    | some callee => exact h.pure _
    | none => exact h.bind h.get fun _ => .throw nofun
  · exact h.pure _
  · cases instr.op.shape? instr.operand with
    | some shape => exact h.pure _
    | none => exact h.bind h.get fun _ => .throw nofun

lemma takeResults (kinds : List ValueKind) :
    Does R (takeResults kinds : Gen γ φ (List (Pending γ φ))) := by
  induction kinds with
  | nil => exact h.pure []
  | cons kind rest ih =>
    cases kind with
    | int => exact h.bind h.popMemory fun _ => h.bind ih fun _ => h.pure _
    | float => exact h.bind h.popMemoryFloat fun _ => h.bind ih fun _ => h.pure _

lemma jump (target : Word) : Does R (jump scope target : Gen γ φ Unit) :=
  h.unlessPending (Does.labelTarget_bind fun _ isLabel =>
    h.jumpTo (h.emit rfl (.inr ⟨_, rfl, isLabel⟩)))

/-! ### Values -/

section Values

variable [DecidableEq γ] [DecidableEq φ]

omit [DecidableEq φ] in
lemma releaseInt (lease : Lease γ) : Does R (releaseInt lease : Gen γ φ Unit) :=
  h.alter fun _ => ⟨rfl, rfl, rfl⟩

omit [DecidableEq γ] in
lemma releaseFloat (lease : Lease φ) : Does R (releaseFloat lease : Gen γ φ Unit) :=
  h.alter fun _ => ⟨rfl, rfl, rfl⟩

lemma discard (value : Pending γ φ) : Does R (discard value) := by
  cases value with
  | reg lease => exact h.releaseInt lease
  | floatReg lease => exact h.releaseFloat lease
  | _ => exact h.pure ()

omit [DecidableEq γ] in
lemma popInt : Does R (popInt : Gen γ φ (Pending γ φ)) := by
  refine h.bind h.pop fun value => ?_
  cases value with
  | floatReg src =>
    exact h.bind h.acquireInt fun _ => h.emits rfl trivial <| h.bind (h.releaseFloat src)
      fun _ => h.pure _
  | _ => exact h.pure _

omit [DecidableEq γ] in
lemma toIntReg (value : Pending γ φ) : Does R (toIntReg value) := by
  cases value with
  | reg lease => exact h.pure lease
  | floatReg src =>
    exact h.bind h.acquireInt fun _ => h.emits rfl trivial <| h.bind (h.releaseFloat src)
      fun _ => h.pure _
  | _ => exact h.bind h.acquireInt fun _ => h.emits rfl trivial <| h.pure _

omit [DecidableEq φ] in
lemma toFloatReg (value : Pending γ φ) : Does R (toFloatReg value) := by
  cases value with
  | floatReg lease => exact h.pure lease
  | reg src =>
    exact h.bind h.acquireFloat fun _ => h.emits rfl trivial <| h.bind (h.releaseInt src)
      fun _ => h.pure _
  | _ => exact h.bind h.acquireFloat fun _ => h.emits rfl trivial <| h.pure _

omit [DecidableEq γ] in
lemma popIntReg : Does R (popIntReg : Gen γ φ (Lease γ)) := h.bind h.popInt
    fun value => h.toIntReg value

lemma pin (value : Pending γ φ) : Does R (pin value) := by
  cases value with
  | slot i => exact h.bind (h.toIntReg _) fun _ => h.pure _
  | floatSlot i => exact h.bind (h.toFloatReg _) fun _ => h.pure _
  | _ => exact h.pure _

lemma pinIf_bind {keep : Bool} {value : Pending γ φ} {f : Pending γ φ → Gen γ φ α}
    (next : ∀ value, Does R (f value)) :
    Does R (if keep then Gen.pin value >>= f else Pure.pure value >>= f) :=
  .ite (h.bind (h.pin value) next) (h.bind (h.pure value) next)

omit [DecidableEq γ] in
lemma popHandle : Does R (popHandle : Gen γ φ (Lease γ)) :=
  h.bind h.popIntReg fun _ => h.bind (h.check (h.emit rfl rfl)) fun _ => h.pure _

lemma keepOrDiscard (keep : Bool) (value : Pending γ φ) : Does R (keepOrDiscard keep value) :=
  .ite (h.pushPending value) (h.discard value)

/-! ### Instructions -/

lemma loadField (slot : Word) (kind : ValueKind) : Does R (loadField slot kind : Gen γ φ Unit) := by
  refine h.bind h.popHandle fun handle => ?_
  cases kind with
  | int => exact h.emits rfl trivial <| h.pushPending _
  | float =>
    exact h.bind h.acquireFloat fun _ => h.emits rfl trivial <| h.bind (h.releaseInt handle)
      fun _ => h.pushPending _

lemma storeLocal (instr : Instruction) (keep : Bool) :
    Does R (storeLocal instr keep : Gen γ φ Unit) :=
  h.bind (h.localIndex instr) fun index => h.bind h.pop fun _ => h.pinIf_bind fun value =>
    h.bind (h.readLocal index) fun _ => h.bind (h.writeLocal index value)
      fun _ => h.keepOrDiscard keep value

lemma storeField (slot : Word) (keep : Bool) : Does R (storeField slot keep : Gen γ φ Unit) :=
  h.bind h.popHandle fun handle => h.bind h.pop fun _ => h.pinIf_bind fun value =>
    h.bind (h.writeMemory _ _ _ value) fun _ => h.bind (h.releaseInt handle)
      fun _ => h.keepOrDiscard keep value

omit [DecidableEq γ] in
lemma loadPairField (slot : Word) : Does R (loadPairField slot : Gen γ φ Unit) :=
  h.bind h.popHandle fun _ => h.bind h.acquireInt
    fun _ => h.emits rfl trivial <| h.emits rfl trivial <| h.bind (h.pushPending _)
    fun _ => h.pushPending _

lemma storePairLocal (instr : Instruction) : Does R (storePairLocal instr : Gen γ φ Unit) :=
  h.bind (h.localIndex instr) fun index => h.bind h.pop fun first => h.bind (h.pin first)
    fun first =>
    h.bind h.pop fun second => h.bind (h.pin second) fun second => h.bind (h.readLocal index)
      fun _ =>
      h.bind (h.readLocal _) fun _ => h.bind (h.writeLocal index first) fun _ =>
        h.bind (h.writeLocal _ second) fun _ => h.bind (h.discard first) fun _ => h.discard second

lemma storePairField (slot : Word) : Does R (storePairField slot : Gen γ φ Unit) :=
  h.bind h.popHandle fun handle => h.bind h.pop fun first => h.bind h.pop fun second =>
    h.bind (h.writeMemory _ _ _ first) fun _ => h.bind (h.writeMemory _ _ _ second) fun _ =>
      h.bind (h.discard first) fun _ => h.bind (h.discard second) fun _ => h.releaseInt handle

lemma foldIndices (index array : γ) (dims : List Nat) :
    Does R (foldIndices index array dims : Gen γ φ Unit) := by
  induction dims with
  | nil => exact h.pure ()
  | cons dim rest ih =>
    exact h.emits rfl trivial <| h.bind h.popInt fun next => h.emits rfl trivial <| h.bind
      (h.discard next) fun _ => ih

lemma elementAddress (kind : ElemKind) (dims : Nat) :
    Does R (elementAddress kind dims : Gen γ φ (Lease γ)) :=
  h.bind h.popHandle fun array => h.bind h.popIntReg fun _ => h.bind (h.foldIndices _ _ _) fun _ =>
    h.bind (h.emit rfl ⟨rfl, rfl⟩) fun _ => h.emits rfl trivial <| h.bind (h.releaseInt array)
      fun _ => h.pure _

lemma loadElement (kind : ElemKind) (dims : Nat) :
    Does R (loadElement kind dims : Gen γ φ Unit) := by
  refine h.bind (h.elementAddress kind dims) fun address => ?_
  cases kind with
  | float =>
    exact h.bind h.acquireFloat fun _ => h.emits rfl trivial <| h.bind (h.releaseInt address)
      fun _ => h.pushPending _
  | _ => exact h.emits rfl trivial <| h.pushPending _

lemma storeElement (kind : ElemKind) (dims : Nat) :
    Does R (storeElement kind dims : Gen γ φ Unit) :=
  h.bind (h.elementAddress kind dims) fun address => h.bind h.pop fun value =>
    h.bind (h.writeMemory _ _ _ value) fun _ => h.bind (h.discard value)
      fun _ => h.releaseInt address

omit [DecidableEq γ] in
lemma arraySize : Does R (arraySize : Gen γ φ Unit) :=
  h.bind h.popHandle fun _ => h.emits rfl trivial <| h.pushPending _

lemma arith (op : IntOp) : Does R (arith op : Gen γ φ Unit) := by
  refine h.bind h.popInt fun right => h.bind h.popInt fun left => ?_
  split
  · exact h.pushPending _
  · exact h.bind (h.toIntReg left) fun _ => h.emits rfl trivial <| h.bind (h.discard right)
      fun _ => h.pushPending _

lemma divideChecked (remainder : Bool) (left right : Pending γ φ) :
    Does R (divideChecked remainder left right) :=
  h.bind (h.toIntReg left) fun _ => h.bind (h.check (h.emit rfl rfl))
    fun _ => h.bind (h.discard right) fun _ =>
    h.pushPending _

lemma divide (remainder : Bool) : Does R (divide remainder : Gen γ φ Unit) := by
  refine h.bind h.popInt fun right => h.bind h.popInt fun left => ?_
  split
  · exact .ite (h.divideChecked remainder _ _) (h.pushPending _)
  · exact h.divideChecked remainder left right

omit [DecidableEq γ] in
lemma bitNot : Does R (bitNot : Gen γ φ Unit) := by
  refine h.bind h.popInt fun value => ?_
  split
  · exact h.pushPending _
  · exact h.bind (h.toIntReg _) fun _ => h.emits rfl trivial <| h.pushPending _

lemma floatArithChecked (op : FloatOp) (left right : Pending γ φ) :
    Does R (floatArithChecked op left right) := by
  refine h.bind (h.toFloatReg left) fun dst => h.bind (h.toFloatReg right) fun src => ?_
  have combines : Does R (do
      Gen.emit (.float op dst.reg src.reg)
      Gen.releaseFloat src
      Gen.pushPending (.floatReg dst) : Gen γ φ Unit) :=
    h.emits rfl trivial <| h.bind (h.releaseFloat src) fun _ => h.pushPending _
  exact .ite (h.bind (h.check (h.emit rfl rfl)) fun _ => combines) combines

lemma floatArith (op : FloatOp) : Does R (floatArith op : Gen γ φ Unit) := by
  refine h.bind h.popFloat fun right => h.bind h.popFloat fun left => ?_
  split
  · exact .ite (h.floatArithChecked op _ _) (h.pushPending _)
  · exact h.floatArithChecked op left right

lemma intToFloat : Does R (intToFloat : Gen γ φ Unit) := by
  refine h.bind h.popInt fun value => ?_
  split
  · exact h.pushPending _
  · exact h.bind (h.toIntReg _) fun src => h.bind h.acquireFloat fun _ => h.emits rfl trivial <|
      h.bind (h.releaseInt src) fun _ => h.pushPending _

lemma floatToInt : Does R (floatToInt : Gen γ φ Unit) := by
  refine h.bind h.popFloat fun value => ?_
  split
  · exact h.pushPending _
  · exact h.bind (h.toFloatReg _) fun src => h.bind h.acquireInt fun _ => h.emits rfl trivial <|
      h.bind (h.releaseFloat src) fun _ => h.pushPending _

lemma drop : Does R (drop : Gen γ φ Unit) := by
  refine h.bind h.takePending fun value? => ?_
  cases value? with
  | some value => exact h.discard value
  | none =>
    exact .of_ok (fun _ => ⟨_, rfl⟩) fun s => h.popOp s .dropTop rfl

lemma compare (next : Option Instruction) (relation : Comparison) :
    Does R (compare scope next relation : Gen γ φ Bool) := by
  refine h.bind h.popInt fun right => h.bind h.popInt fun left => ?_
  split
  · exact h.bind (h.pushPending _) fun _ => h.pure _
  · refine h.bind (h.toIntReg left) fun dst => h.emits rfl trivial <| h.bind (h.discard right)
      fun _ => ?_
    cases fusedJump? next with
    | none => exact h.emits rfl trivial <| h.bind (h.pushPending _) fun _ => h.pure _
    | some jump =>
      refine h.bind (h.releaseInt dst)
        fun _ => h.unlessPending (Does.labelTarget_bind fun index isLabel => ?_)
      exact h.bind (h.jumpTo (h.emit rfl ⟨_, rfl, isLabel⟩)) fun _ => h.pure _

lemma floatCompare (next : Option Instruction) (relation : Comparison) :
    Does R (floatCompare scope next relation : Gen γ φ Bool) := by
  refine h.bind h.popFloat fun right => h.bind h.popFloat fun left => ?_
  split
  · exact h.bind (h.pushPending _) fun _ => h.pure _
  · refine h.bind (h.toFloatReg left) fun left => h.bind (h.toFloatReg right) fun right => ?_
    cases fusedJump? next with
    | none =>
      exact h.bind h.acquireInt fun _ => h.emits rfl trivial <| h.bind (h.releaseFloat left)
        fun _ =>
        h.bind (h.releaseFloat right) fun _ => h.bind (h.pushPending _) fun _ => h.pure _
    | some jump =>
      refine h.bind (h.releaseFloat left) fun _ => h.bind (h.releaseFloat right) fun _ =>
        h.unlessPending (Does.labelTarget_bind fun index isLabel => ?_)
      exact h.bind (h.jumpTo (h.emit rfl ⟨_, rfl, isLabel⟩)) fun _ => h.pure _

lemma jumpWhen (target expected : Word) :
    Does R (jumpWhen scope target expected : Gen γ φ Unit) := by
  refine h.bind h.popInt fun value => h.unlessPending (Does.labelTarget_bind fun _ isLabel => ?_)
  have jumps : Does R (do
      let reg ← Gen.toIntReg value
      Gen.emit (.compare reg.reg (.imm expected))
      Gen.jumpTo (.branch .eq (.instruction _))
      Gen.releaseInt reg : Gen γ φ Unit) :=
    h.bind (h.toIntReg value) fun reg => h.emits rfl trivial <|
      h.bind (h.jumpTo (h.emit rfl ⟨_, rfl, isLabel⟩)) fun _ => h.releaseInt reg
  cases value with
  | imm v => exact .ite (h.jumpTo (h.emit rfl (.inr ⟨_, rfl, isLabel⟩))) (h.pure ())
  | _ => exact jumps

end Values

end Basis

/-! ### Writing pending values to memory -/

/-- A runtime call that is compiled has a shape. -/
lemma runtimeShape_eq_ok {scope : Scope} {instr : Instruction} {shape : Shape} {s t : GenState γ φ}
    (run : runtimeShape scope instr s = .ok shape t) : scope.shape? instr = some shape ∧ t = s := by
  obtain ⟨e, eq⟩ := Triple.runtimeShape_eq (γ := γ) (φ := φ) scope instr
  rw [eq] at run
  cases declared : scope.shape? instr with
  | none =>
    rw [declared] at run
    cases run
  | some shape' =>
    rw [declared] at run
    cases run
    exact ⟨rfl, rfl⟩

section Flush

variable [DecidableEq γ] [DecidableEq φ]

/-- The operation that writes a value to the operand stack in memory. -/
def pushOf : Pending γ φ → Operation γ φ
  | .floatReg lease => .pushFloat lease.reg
  | value => .push (srcOf value)

/-- Values are written to memory one after the other. -/
lemma flushEach_eq (values : List (Pending γ φ)) (s : GenState γ φ) : ∃ ints floats,
    flushEach values s = .ok ()
    { s with ops := s.ops ++ (values.map pushOf).toArray, ints, floats } := by
  induction values generalizing s with
  | nil => exact ⟨s.ints, s.floats, by simp [flushEach, Pure.pure, EStateM.pure]⟩
  | cons value rest ih =>
    have first : ∃ ints floats, flushEach (value :: rest) s =
        flushEach rest { s with ops := s.ops.push (pushOf value), ints, floats } := by
      cases value <;> exact ⟨_, _, rfl⟩
    obtain ⟨ints, floats, eq⟩ := first
    obtain ⟨ints', floats', eq'⟩ := ih { s with ops := s.ops.push (pushOf value), ints, floats }
    refine ⟨ints', floats', eq.trans (eq'.trans ?_)⟩
    simp

/-- The top pending values are written to memory, bottom first. -/
lemma flushTop_eq (n : Nat) (s : GenState γ φ) : ∃ ints floats,
    flushTop n s = .ok () { s with
      ops := s.ops ++ ((s.pending.take n).reverse.map pushOf).toArray
      pending := s.pending.drop n
      covered := s.covered - (s.pending.take n).length
      openReserve := none, ints, floats } :=
  flushEach_eq (s.pending.take n).reverse { s with
    pending := s.pending.drop n, covered := s.covered - (s.pending.take n).length,
      openReserve := none }

variable {scope : Scope} {R : GenState γ φ → GenState γ φ → Prop} {s : GenState γ φ}

/-- Writing to memory does not fail. -/
lemma doesFrom_flushTop (flushes : ∀ n t, flushTop n s = .ok () t → R s t) (n : Nat) :
    DoesFrom R s (flushTop n) where
  ok run := flushes n _ run
  error run := by
    obtain ⟨ints, floats, eq⟩ := flushTop_eq n s
    cases eq.symm.trans run

namespace Basis

variable (h : Basis scope R) (flushes : ∀ n t, flushTop n s = .ok () t → R s t)
  {instr : Instruction}
include h flushes

lemma callRuntime (calls : ∀ shape t, scope.shape? instr = some shape →
      R t (t.calling scope instr s.ip shape)) : DoesFrom R s (callRuntime scope instr) := by
  refine h.bindFrom ((h.runtimeShape instr).doesFrom s) fun shape u shaped => ?_
  obtain ⟨declared, same⟩ := runtimeShape_eq_ok shaped
  rw [same]
  refine h.bindFrom (doesFrom_flushTop flushes _) fun _ v flushed => ?_
  have at_ip : v.ip = s.ip := by
    obtain ⟨ints, floats, eq⟩ := flushTop_eq shape.consumed s
    cases eq.symm.trans flushed
    rfl
  refine h.bindFrom (h.get.doesFrom v) fun v₁ _ same => ?_
  cases same
  refine h.bindFrom (h.get.doesFrom v) fun v₂ _ same => ?_
  cases same
  rw [at_ip]
  have called (k : Gen γ φ Unit) (next : Does R k) : Does R (do
      Gen.emit (.callRuntime (Word.ofNat instr.op.tag) (scope.addresses.code + Word.ofNat s.ip)
        (Word.ofNat (s.ip + 1)) .exit)
      modify fun t => { t with covered := t.covered + shape.consumed - shape.produced.length }
      k) := by
    rw [← bind_assoc]
    refine h.bind ⟨fun run => ?_, fun run => nomatch run⟩ fun _ => next
    cases run
    exact calls shape _ declared
  have spill (op : Nat → γ → Operation γ φ) (emits : ∀ slot reg, Does R (Gen.emit (op slot reg))) :
      Does R (Gen.emitSpills op intSpillBase (pendingInts v.pending)) := h.emitSpills emits _ _
  have spillFloats (op : Nat → φ → Operation γ φ) (emits : ∀ slot reg,
    Does R (Gen.emit (op slot reg))) :
      Does R (Gen.emitSpills op floatSpillBase (pendingFloats v.pending)) := h.emitSpills emits _ _
  have takes : Does R (do
      let results ← Gen.takeResults shape.produced.reverse
      modify fun t => { t with pending := results ++ t.pending } : Gen γ φ Unit) :=
    h.bind (h.takeResults _) fun _ => h.alter fun _ => ⟨rfl, rfl, rfl⟩
  have serves := h.bind (spill (fun slot reg => .storeSlot slot (.reg reg))
    fun _ _ => h.emit rfl trivial)
    fun _ => h.bind (spillFloats (fun slot reg => .storeFloatSlot slot reg)
      fun _ _ => h.emit rfl trivial)
      fun _ => called _ (h.bind (spill (fun slot reg => .loadSlot reg slot)
        fun _ _ => h.emit rfl trivial)
          fun _ => h.bind (spillFloats (fun slot reg => .loadFloatSlot reg slot)
            fun _ _ => h.emit rfl trivial) fun _ => takes)
  have overflows : Does R (MonadExcept.throw (.spillOverflow s.ip) : Gen γ φ PUnit) := .throw nofun
  exact (Does.ite (h.bind overflows fun _ => serves) serves).doesFrom v

lemma leave : DoesFrom R s (leave : Gen γ φ Unit) := by
  refine h.bindFrom (h.bindFrom (h.get.doesFrom s) fun s' _ same => ?_) fun _ t _ => ?_
  · cases same
    exact doesFrom_flushTop flushes _
  · have exits : Does R (Gen.emit (.jump .exit) : Gen γ φ Unit) := h.emit rfl (.inl rfl)
    exact exits.doesFrom t

/-- What each instruction does, if it may write pending values to memory and call the runtime. -/
theorem instruction (next : Option Instruction) (calls : instr.action = .runtime →
      ∀ shape t, scope.shape? instr = some shape → R t (t.calling scope instr s.ip shape)) :
    DoesFrom R s (instruction scope instr next) := by
  unfold Gen.instruction
  cases asks : instr.action with
  | leave => exact h.bindFrom (h.leave flushes) fun _ t _ => (h.pure false).doesFrom t
  | runtime =>
    exact h.bindFrom (h.callRuntime flushes (calls asks)) fun _ t _ => (h.pure false).doesFrom t
  | compare relation => exact (h.compare next relation).doesFrom s
  | floatCompare relation => exact (h.floatCompare next relation).doesFrom s
  | loadLocal slot kind =>
    exact (h.bind (h.localIndex instr) fun _ => h.bind (h.pushPending _)
      fun _ => h.pure false).doesFrom s
  | literal value | floatLiteral value => exact h.ended (h.pushPending _) s
  | label => exact h.ended h.label s
  | loadField slot kind => exact h.ended (h.loadField slot kind) s
  | storeLocal slot keep => exact h.ended (h.storeLocal instr keep) s
  | storeField slot keep => exact h.ended (h.storeField slot keep) s
  | loadPairLocal slot => exact h.ended (h.loadPairLocal instr) s
  | loadPairField slot => exact h.ended (h.loadPairField slot) s
  | storePairLocal slot => exact h.ended (h.storePairLocal instr) s
  | storePairField slot => exact h.ended (h.storePairField slot) s
  | loadClassMemory | loadInstance => exact h.ended (h.loadArg _) s
  | loadElement kind dims => exact h.ended (h.loadElement kind dims) s
  | storeElement kind dims => exact h.ended (h.storeElement kind dims) s
  | arraySize => exact h.ended h.arraySize s
  | arith op => exact h.ended (h.arith op) s
  | divide remainder => exact h.ended (h.divide remainder) s
  | bitNot => exact h.ended h.bitNot s
  | floatArith op => exact h.ended (h.floatArith op) s
  | intToFloat => exact h.ended h.intToFloat s
  | floatToInt => exact h.ended h.floatToInt s
  | drop => exact h.ended h.drop s
  | swap => exact h.ended h.swap s
  | jump target => exact h.ended (h.jump target) s
  | jumpWhen target value => exact h.ended (h.jumpWhen target value) s

end Basis

/-! ### Methods -/

/-- A relation that also holds across writing to memory, runtime calls, reservations and the
stubs. -/
structure FullBasis (scope : Scope) (R : GenState γ φ → GenState γ φ → Prop) : Prop extends
    Basis scope R where
  flushes : ∀ {n s t}, flushTop n s = .ok () t → R s t
  calls : ∀ {instr shape} s ip, scope.shape? instr = some shape →
    R s (s.calling scope instr ip shape)
  reserves : ∀ s, R s s.reserving
  stubs : ∀ s, R s { s with ops := s.ops ++ stubs.toArray }

namespace FullBasis

variable (h : FullBasis scope R)
include h

lemma reserveDepth : Does R (reserveDepth : Gen γ φ Unit) := .of_ok (fun _ => ⟨_, rfl⟩) h.reserves

lemma step (ip : Nat) (instr : Instruction) (next : Option Instruction) :
    Does R (step scope ip instr next : Gen γ φ Bool) := by
  have compiles : Does R (Gen.instruction scope instr next : Gen γ φ Bool) := by
    have each (s : GenState γ φ) : DoesFrom R s (Gen.instruction scope instr next) :=
      h.toBasis.instruction (fun _ _ => h.flushes) next fun _ _ t => h.calls t s.ip
    exact ⟨fun run => (each _).ok run, fun run => (each _).error run⟩
  have exhausted : Does R (MonadExcept.throw .registersExhausted : Gen γ φ PUnit) := .throw nofun
  have ends (fused : Bool) : Does R (do
      Gen.reserveDepth
      return fused : Gen γ φ Bool) := h.bind h.reserveDepth fun _ => h.pure fused
  have rest : Does R (do
      let fused ← Gen.instruction scope instr next
      let s ← get
      if s.ints.failed ∨ s.floats.failed then throw .registersExhausted
      Gen.reserveDepth
      return fused : Gen γ φ Bool) :=
    h.bind compiles fun fused => h.bind h.get fun _ => .ite (h.bind exhausted fun _ => ends fused)
      (ends fused)
  exact h.bind (h.alter fun _ => ⟨rfl, rfl, rfl⟩)
    fun _ => .ite (h.bind h.closeReserve fun _ => rest) rest

lemma body (ip : Nat) (code : List Instruction) : Does R (body scope ip code : Gen γ φ Unit) := by
  cases code with
  | nil => exact h.pure ()
  | cons instr rest =>
    rw [body_cons]
    refine h.bind (h.step ip instr rest.head?) fun fused => ?_
    cases fused with
    | false => exact body (ip + 1) rest
    | true => exact body (ip + 2) rest.tail
  termination_by code.length

lemma finish : Does R (finish : Gen γ φ Unit) where
  ok run := by
    obtain ⟨u, flushed, rfl⟩ := finish_eq_ok run
    exact h.trans (h.flushes flushed) (h.stubs u)
  error {s e t} run := by
    obtain ⟨ints, floats, flushed⟩ := flushTop_eq s.pending.length s
    have run' : EStateM.bind flushAll _ s = .error e t := run
    unfold EStateM.bind at run'
    rw [show flushAll s = _ from flushed] at run'
    cases run'

/-- What it takes to compile a whole method. -/
theorem method : Does R (method scope : Gen γ φ Unit) := by
  rw [method_eq]
  exact h.emits rfl trivial <| h.bind (h.body 0 _) fun _ => h.finish

end FullBasis

end Flush

end Gen

end StackMachine.Native
