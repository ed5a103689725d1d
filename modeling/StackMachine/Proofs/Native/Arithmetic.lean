import StackMachine.Proofs.Native.Outcome

/-!
# Arithmetic in compiled code

The operations generated for an arithmetic instruction compute what the ideal machine computes,
whether the operands are constants that are folded, or registers and locals.
-/

namespace StackMachine.Native.Triple

open Gen Execution

variable {γ φ : Type} [DecidableEq γ] [DecidableEq φ] {x : Execution γ φ} {E : ExitAssertion γ φ}
  {closed : Bool} {held : List (Pending γ φ × Word)} {v : Ideal} {left right value : Word}
  {rest : List Word} {u l r : Pending γ φ} {R : Ideal.Result → Prop} {β : Type}
  {f : Pending γ φ → Pending γ φ → Gen γ φ β} {Q : β → Assertion γ φ} {dst src : Lease φ}
  {op : FloatOp} {remainder : Bool}

/-! ### Integers -/

/-- The two operands of an integer operation are held, neither in a float register. -/
def Operands (x : Execution γ φ) (l r : Pending γ φ) (left right : Word) (v : Ideal) :
    Assertion γ φ :=
  (x.Stands [(l, left), (r, right)] v).also fun _ => l.float? = none ∧ r.float? = none

lemma leftToReg : Triple x E closed (Operands x l r left right v) (Gen.toIntReg l)
    fun dst => (x.Stands [(.reg dst, left), (r, right)] v).also fun _ => r.float? = none :=
  (toIntReg.frame (fun _ => r.float? = none) fun _ => id).pre (fun _ known => ⟨known.1.2, known.2⟩)
    fun _ _ _ => id

/-- Two operands that are constants give way to a constant. -/
lemma pushFolded {a b : Word} (u : Pending γ φ) (noInt : u.int? = none) (noFloat : u.float? = none)
    (noLocal : u.local? = none)
    (result : a = left → b = right → ∀ p, R (.next (v.push (u.value p)))) :
    Triple x E closed (Operands x (.imm a) (.imm b) left right v) (Gen.pushPending u)
    fun _ => x.Next R := by
  refine pushFresh noInt noFloat (by simp [noLocal])
    (fun _ known => (known.2.drop rfl rfl).drop rfl rfl) fun s c holds =>
      ⟨Stands.drop (Stands.drop holds), ?_⟩
  exact result (Stands.value holds) (Stands.value (Stands.drop holds)) c.proc

/-- The right operand is dropped and the result becomes pending. -/
lemma finishBinary {dst : Lease γ} (result : R (.next (v.push value))) :
    Triple x E closed (x.Stands [(.reg dst, value), (r, right)] v)
      (Gen.discard r >>= fun _ => Gen.pushPending (.reg dst)) fun _ => x.Next R :=
  discard.swapHeld.bind fun _ => pushNext result

/-- A division whose divisor is checked. -/
lemma divideChecked (fails : right = 0 → R (v.fails .divideByZero))
    (result : right ≠ 0 → R (.next (v.push (Word.divide remainder left right)))) :
    Triple x (x.Exits R) closed (Operands x l r left right v) (Gen.divideChecked remainder l r)
    fun _ => x.Next R := by
  refine leftToReg.bind fun dst => Triple.bind (Q := fun _ =>
      (x.Stands [(.reg dst, Word.divide remainder left right), (r, right)] v).given (right ≠ 0))
    (check rfl (fun _ => id) (fun _ _ => id) (fun _ known => known.2) (fun s c known holds => ?_)
      fun _ known => Owned.isUsed known.2 (.tail _ (.head _)))
    fun _ => assuming (finishBinary result)
  have first : c.proc.int dst.reg = left := Stands.value holds
  have second : c.proc.src (srcOf r) = right := by
    rw [src_srcOf _ known.1]
    exact Stands.value (Stands.drop holds)
  by_cases isZero : right = 0
  · obtain ⟨pend, below, keys, stack, rep⟩ := holds
    refine ⟨c.proc, .goto (.fault .divZero), ?_, .inr ⟨_, rfl, .divideByZero, rfl, ?_, rep.calm⟩⟩
    · exact congrFun (if_pos (second.trans isZero)) c.state
    · rw [rep.machine_eq]
      exact fails isZero
  · refine ⟨_, .next, ?_, .inl ⟨rfl, isZero, Stands.setInt known.2 holds _ _⟩⟩
    rw [← first, ← second]
    exact congrFun (if_neg (by rw [second]; exact isZero)) c.state

/-! ### Doubles -/

/-- Two doubles that are constants give way to a constant. -/
lemma pushFoldedDoubles {a b : Double} (u : Pending γ φ) (noInt : u.int? = none)
    (noFloat : u.float? = none) (noLocal : u.local? = none)
    (result : .ofWord left = a → .ofWord right = b → ∀ p, R (.next (v.push (u.value p)))) :
    Triple x E closed (x.Stands [(.floatImm a, left), (.floatImm b, right)] v) (Gen.pushPending u)
      fun _ => x.Next R := by
  refine pushFresh noInt noFloat (by simp [noLocal])
    (fun _ known => (known.drop rfl rfl).drop rfl rfl) fun s c holds =>
      ⟨Stands.drop (Stands.drop holds), ?_⟩
  obtain rfl : a.toWord = left := Stands.value holds
  obtain rfl : b.toWord = right := Stands.value (Stands.drop holds)
  exact result (ofWord_toWord a) (ofWord_toWord b) c.proc

/-- Two operands are brought into float registers. -/
lemma toFloatRegs {f : Lease φ → Lease φ → Gen γ φ β} (next : ∀ dst src, Triple x E closed
      (x.Stands [(.floatReg dst, left), (.floatReg src, right)] v) (f dst src) Q) :
    Triple x E closed (x.Stands [(l, left), (r, right)] v)
      (Gen.toFloatReg l >>= fun dst => Gen.toFloatReg r >>= fun src => f dst src) Q :=
  toFloatReg.bind fun dst => toFloatReg.swapHeld.bind fun src => (next dst src).swapHeld

/-- A float operation computes on two registers. -/
lemma emitDoubles : Triple x E closed (x.Stands [(.floatReg dst, left), (.floatReg src, right)] v)
      (Gen.emit (.float op dst.reg src.reg)) fun _ => x.Stands
        [(.floatReg dst, (Double.eval op (.ofWord left) (.ofWord right)).toWord),
          (.floatReg src, right)] v := by
  refine emitFloat rfl (fun _ => id) (fun s c _ holds => ⟨⟨_, holds⟩, ?_⟩) rfl uses_nil
  rw [← Stands.float holds, ← Stands.float (Stands.drop holds)]
  rfl

/-- A float operation on two registers ends an instruction. -/
lemma finishFloat
    (result : R (.next (v.push (Double.eval op (.ofWord left) (.ofWord right)).toWord))) :
    Triple x E closed (x.Stands [(.floatReg dst, left), (.floatReg src, right)] v) (do
      Gen.emit (.float op dst.reg src.reg)
      Gen.releaseFloat src
      Gen.pushPending (.floatReg dst)) fun _ => x.Next R :=
  emitDoubles.bind fun _ => releaseFloat.swapHeld.bind fun _ => pushNext result

lemma floatArithChecked
    (fails : op = .div ∧ (Double.ofWord right).isZero → R (v.fails .divideByZero))
    (result : ¬(op = .div ∧ (Double.ofWord right).isZero) →
      R (.next (v.push (Double.eval op (.ofWord left) (.ofWord right)).toWord))) :
    Triple x (x.Exits R) closed (x.Stands [(l, left), (r, right)] v) (Gen.floatArithChecked op l r)
      fun _ => x.Next R := by
  refine toFloatRegs fun dst src => ?_
  by_cases isDiv : op = .div
  · simp only [if_pos isDiv]
    refine (checkFault .divZero rfl rfl (fun s c holds => ?_)
      (fun isZero => fails (not_not.1 isZero)) rfl).bind fun _ => assuming (finishFloat result)
    have divisor := Stands.float (Stands.drop holds)
    have run : x.perform (.floatZeroBranch src.reg (.fault .divZero)) c.proc c.state =
      .ok (c.proc, Processor.Flow.when (c.proc.float src.reg).isZero (.fault .divZero)) c.state :=
      rfl
    rw [run, divisor]
    by_cases isZero : (Double.ofWord right).isZero
    · exact .inl ⟨not_not.2 ⟨isDiv, isZero⟩, by rw [isZero]; rfl⟩
    · refine .inr ⟨fun both => isZero both.2, ?_⟩
      rw [Processor.Flow.when, if_neg isZero]
  · simp only [if_neg isDiv]
    exact finishFloat (result fun both => isDiv both.1)

/-! ### Two operands -/

section

variable (stack : v.stack = right :: left :: rest)
include stack

/-- Two operands are taken, the right one first. -/
lemma popOperands
    (next : ∀ r l, Triple x E closed (Operands x l r left right (v.withStack rest)) (f r l) Q) :
    Triple x E closed (x.Stands [] v) (Gen.popInt >>= fun r => Gen.popInt >>= fun l => f r l)
      Q := by
  refine (popInt stack).bind fun r => ?_
  refine ((popInt rfl).frame (fun _ => r.float? = none) fun _ => id).bind fun l => ?_
  exact (next r l).pre (fun _ known => ⟨⟨known.2.1, known.1⟩, known.2.2⟩) fun _ _ _ => id

lemma arith {op : IntOp} (result : R (.next ((v.withStack rest).push (op.eval left right)))) :
    Triple x E closed (x.Stands [] v) (Gen.arith op) fun _ => x.Next R := by
  refine popOperands stack fun r l => ?_
  have general : Triple x E closed (Operands x l r left right (v.withStack rest)) (do
      let dst ← Gen.toIntReg l
      Gen.emit (.int op dst.reg (srcOf r))
      Gen.discard r
      Gen.pushPending (.reg dst)) fun _ => x.Next R :=
    leftToReg.bind fun dst => (emitBinary rfl (fun p s => rfl) rfl).bind
      fun _ => finishBinary result
  split
  · exact pushFolded _ rfl rfl rfl fun sameLeft sameRight _ => by
      rw [sameLeft, sameRight]
      exact result
  · exact general

/-- A division. -/
lemma divide (fails : right = 0 → R ((v.withStack rest).fails .divideByZero))
    (result : right ≠ 0 → R (.next ((v.withStack rest).push (Word.divide remainder left right)))) :
    Triple x (x.Exits R) closed (x.Stands [] v) (Gen.divide remainder) fun _ => x.Next R := by
  refine popOperands stack fun r l => ?_
  split
  · next a b =>
    split
    · exact divideChecked fails result
    · next nonzero =>
      exact pushFolded _ rfl rfl rfl fun sameLeft sameRight _ => by
        subst sameLeft sameRight
        exact result nonzero
  · exact divideChecked fails result

/-- Two doubles are taken, the right one first. -/
lemma popDoubles
    (next : ∀ r l, Triple x E closed (x.Stands [(l, left), (r, right)] (v.withStack rest))
      (f r l) Q) :
    Triple x E closed (x.Stands [] v)
    (Gen.popFloat >>= fun r => Gen.popFloat >>= fun l => f r l) Q :=
  (popFloat stack).bind fun r => (popFloat rfl).bind fun l => next r l

lemma floatArith
    (fails : op = .div ∧ (Double.ofWord right).isZero → R ((v.withStack rest).fails .divideByZero))
    (result : ¬(op = .div ∧ (Double.ofWord right).isZero) →
      R (.next ((v.withStack rest).push (Double.eval op (.ofWord left) (.ofWord right)).toWord))) :
    Triple x (x.Exits R) closed (x.Stands [] v) (Gen.floatArith op) fun _ => x.Next R := by
  refine popDoubles stack fun r l => ?_
  split
  · next a b =>
    split
    · exact floatArithChecked fails result
    · next nonzero =>
      refine pushFoldedDoubles _ rfl rfl rfl fun sameLeft sameRight _ => ?_
      rw [sameLeft, sameRight] at result
      exact result nonzero
  · exact floatArithChecked fails result

end

/-! ### The top of the stack -/

section

variable (stack : v.stack = value :: rest)
include stack

lemma bitNot (result : R (.next ((v.withStack rest).push (~~~value)))) :
    Triple x E closed (x.Stands [] v) Gen.bitNot fun _ => x.Next R := by
  refine (popInt stack).bind fun u => ?_
  have general : Triple x E closed (x.Stands [(u, value)] (v.withStack rest)) (do
      let dst ← Gen.toIntReg u
      Gen.emit (.not dst.reg)
      Gen.pushPending (.reg dst)) fun _ => x.Next R :=
    toIntReg.bind fun dst => (emitUnary rfl (fun p s => rfl) rfl).bind fun _ => pushNext result
  split
  · next a =>
    refine pushFresh rfl rfl (fun _ none => nomatch none) (fun _ known => known.2.drop rfl rfl)
      fun s c holds => ⟨Stands.drop holds, ?_⟩
    obtain rfl : a = value := Stands.value holds
    exact result
  · exact general.forget

lemma intToFloat (result : R (.next ((v.withStack rest).push (Double.ofInt64 value).toWord))) :
    Triple x E closed (x.Stands [] v) Gen.intToFloat fun _ => x.Next R := by
  refine (popInt stack).bind fun u => ?_
  have general : Triple x E closed (x.Stands [(u, value)] (v.withStack rest)) (do
      let src ← Gen.toIntReg u
      let dst ← Gen.acquireFloat
      Gen.emit (.intToFloat dst.reg src.reg)
      Gen.releaseInt src
      Gen.pushPending (.floatReg dst)) fun _ => x.Next R :=
    toIntReg.bind fun src => acquireFloat.bind fun dst =>
      (emitConvertFloat rfl Double.ofInt64 (fun p s => rfl) rfl).bind fun _ =>
        releaseInt.swapHeld.bind fun _ => pushNext result
  split
  · next a =>
    refine pushFresh rfl rfl (fun _ none => nomatch none) (fun _ known => known.2.drop rfl rfl)
      fun s c holds => ⟨Stands.drop holds, ?_⟩
    obtain rfl : a = value := Stands.value holds
    exact result
  · exact general.forget

lemma floatToInt (result : R (.next ((v.withStack rest).push (Double.ofWord value).truncate))) :
    Triple x E closed (x.Stands [] v) Gen.floatToInt fun _ => x.Next R := by
  refine (popFloat stack).bind fun u => ?_
  have general : Triple x E closed (x.Stands [(u, value)] (v.withStack rest)) (do
      let src ← Gen.toFloatReg u
      let dst ← Gen.acquireInt
      Gen.emit (.floatToInt dst.reg src.reg)
      Gen.releaseFloat src
      Gen.pushPending (.reg dst)) fun _ => x.Next R :=
    toFloatReg.bind fun src => acquireInt.bind fun dst =>
      (emitConvert rfl (fun w => (Double.ofWord w).truncate) (fun p s => rfl) rfl).bind fun _ =>
        releaseFloat.swapHeld.bind fun _ => pushNext result
  split
  · next a =>
    refine pushFresh rfl rfl (fun _ none => nomatch none) (fun _ known => known.drop rfl rfl)
      fun s c holds => ⟨Stands.drop holds, ?_⟩
    obtain rfl : a.toWord = value := Stands.value holds
    rw [ofWord_toWord] at result
    exact result
  · exact general

lemma drop (result : R (.next (v.withStack rest))) :
    Triple x E closed (x.Stands [] v) Gen.drop fun _ => x.Next R := by
  refine (takePending stack).bind fun o => ?_
  cases o with
  | some u => exact discard.toNext result
  | none =>
    refine emit_closing rfl poppedMemory_closes (fun s t known run => ?_)
      (fun s c t ⟨empty, known⟩ holds run => ?_) rfl
    all_goals cases run
    · exact known.2
    · have rep := below_eq empty stack holds
      exact ⟨_, .next, _, rfl, .inl ⟨rfl, _, result, [], rest, empty.symm, rfl, rep.popBelow⟩⟩

end

/-- The two top values are exchanged. -/
lemma swap {top below : Word} (stack : v.stack = top :: below :: rest)
    (result : R (.next (((v.withStack rest).push top).push below))) :
    Triple x E closed (x.Stands [] v) Gen.swap fun _ => x.Next R :=
  (pop stack).bind fun _ => (pop rfl).bind fun _ => pushPending.swapHeld.bind
    fun _ => pushNext result

end StackMachine.Native.Triple
