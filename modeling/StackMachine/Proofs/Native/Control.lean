import StackMachine.Proofs.Native.Arithmetic

/-!
# Control flow in compiled code

At a label and at a jump no value is pending, so the operand stack of the ideal machine is the one
in memory.  A comparison followed by a conditional jump is compiled as one branch: it does what the
ideal machine does in two steps.
-/

namespace StackMachine.Native

variable {γ φ : Type} [DecidableEq γ] [DecidableEq φ]

/-- Something more holds of the processor when the code is run. -/
def Assertion.having (P : Assertion γ φ) (fact : Processor γ φ → Prop) : Assertion γ φ :=
  ⟨P.known, fun s c => fact c.proc ∧ P.holds s c⟩

/-- Control moves on by one place with each operation. -/
lemma Execution.Steps.place_eq {x : Execution γ φ} {n : Nat} {c c' : Config γ φ}
    (steps : x.Steps n c c') : c'.place = c.place + n := by
  induction steps with
  | refl c => rfl
  | head _ _ _ ih => rw [ih, Nat.add_assoc, Nat.add_comm 1]

namespace Triple

open Gen Execution

variable {α : Type} {x : Execution γ φ} {E E' : ExitAssertion γ φ} {closed : Bool}
  {held : List (Pending γ φ × Word)} {v : Ideal} {w left right value : Word} {rest : List Word}
  {u l r : Pending γ φ} {P : Assertion γ φ} {g : Gen γ φ α} {Q : α → Assertion γ φ}
  {R : Ideal.Result → Prop} {fact : Processor γ φ → Prop} {f : Gen γ φ α} {reason : ShapeReason}
  {s t : GenState γ φ} {target : Word} {index : Nat}

/-- A part that emits nothing leaves the processor alone. -/
lemma having (h : Triple x (fun _ _ _ => False) closed P g Q)
    (silent : ∀ {s t : GenState γ φ} {a : α}, g s = .ok a t → t.ops = s.ops) :
    Triple x E closed (P.having fact) g fun a => (Q a).having fact where
  adds := h.adds
  knows := h.knows
  uses := h.uses
  runs allowed run alive grows known c at_c holds := by
    rcases h.runs allowed run alive grows known c at_c holds.2 with
      ⟨n, c', steps, at_c', quiet, after⟩ | ⟨-, _, _, _, _, -, isFalse⟩
    · have none : n = 0 := by
        have moved := steps.place_eq
        rw [at_c', silent run] at moved
        omega
      subst none
      cases steps
      exact .inl ⟨0, c, .refl c, at_c', quiet, holds.1, after⟩
    · exact isFalse.elim

/-- More may be the case where a jump is taken. -/
lemma exits (h : Triple x E closed P g Q) (imp : ∀ target p s, E target p s → E' target p s) :
    Triple x E' closed P g Q where
  adds := h.adds
  knows := h.knows
  uses := h.uses
  runs allowed run alive grows known c at_c holds :=
    (h.runs allowed run alive grows known c at_c holds).imp imp fun _ => id

/-! ### Jumps -/

omit [DecidableEq γ] [DecidableEq φ] in
/-- Generation goes on only if no value is pending. -/
lemma noPending_eq_ok {a : α} (run : (do
      unless ← Gen.noPending do Gen.badShape reason
      f) s = .ok a t) : s.pending = [] ∧ f s = .ok a t := by
  obtain ⟨b, s', run₀, run⟩ := bind_eq_ok.1 run
  cases run₀
  cases pending : s.pending with
  | nil =>
    simp only [pending] at run
    exact ⟨rfl, run⟩
  | cons u us =>
    simp only [pending] at run
    cases run

/-- No value is pending, or generation fails. -/
lemma noPending_bind (next : Triple x E closed (P.also fun s => s.pending = []) f Q) :
    Triple x E closed P (do
      unless ← Gen.noPending do Gen.badShape reason
      f) Q where
  adds allowed run := next.adds allowed (noPending_eq_ok run).2
  knows allowed run alive known := next.knows allowed (noPending_eq_ok run).2 alive
    ⟨(noPending_eq_ok run).1, known⟩
  uses allowed run alive known := next.uses allowed (noPending_eq_ok run).2 alive
    ⟨(noPending_eq_ok run).1, known⟩
  runs allowed run alive grows known :=
    next.runs allowed (noPending_eq_ok run).2 alive grows ⟨(noPending_eq_ok run).1, known⟩

/-- The label a jump goes to is an instruction of the method, or generation fails. -/
lemma labelTarget_bind {scope : Scope} {f : JumpTarget → Gen γ φ α}
    (next : ∀ index, Word.toIndex? target = some index → scope.IsLabel index →
      Triple x E closed P (f (.instruction index)) Q) :
    Triple x E closed P (Gen.labelTarget scope target >>= f) Q := by
  cases index : Word.toIndex? target with
  | none =>
    refine fails fun s a t run => ?_
    obtain ⟨_, _, run, -⟩ := bind_eq_ok.1 run
    unfold Gen.labelTarget at run
    rw [index] at run
    cases run
  | some i =>
    by_cases isLabel : scope.method.code[i]?.any fun instr => instr.op = .lbl
    · obtain ⟨instr, at_i, op⟩ := (Option.any_eq_true _ _).1 isLabel
      have known : Gen.labelTarget (γ := γ) (φ := φ) scope target = Pure.pure (.instruction i) := by
        unfold Gen.labelTarget
        rw [index]
        exact if_pos isLabel
      rw [known, pure_bind]
      exact next i index ⟨instr, at_i, of_decide_eq_true op⟩
    · refine fails fun s a t run => ?_
      obtain ⟨_, _, run, -⟩ := bind_eq_ok.1 run
      unfold Gen.labelTarget at run
      rw [index] at run
      simp only [if_neg isLabel] at run
      cases run

/-- The operand stack in memory is the whole stack where no value is pending. -/
lemma represents_of_empty {c : Config γ φ} (empty : s.pending = [])
    (holds : (x.Stands held v).holds s c) :
    x.Represents 0 [] v.stack v.mem v.machine c.proc c.state := by
  obtain ⟨pend, below, keys, stack, rep⟩ := holds
  rw [empty, List.map_eq_nil_iff] at keys
  subst keys
  obtain rfl : below = v.stack := stack.symm
  exact { rep with
    values := List.forall_mem_nil _
    room := Nat.le_trans (Nat.le_add_right _ _) rep.room }

omit [DecidableEq γ] [DecidableEq φ] in
/-- Closing the reservation appends nothing. -/
lemma closeReserve_closes (run : Gen.closeReserve s = .ok () t) :
    t.ops = s.ops ∧ s.Adds t ∧ t.openReserve = none := by
  cases run
  exact ⟨rfl, .ofSame rfl id (.inr rfl) (absurd rfl) rfl, rfl⟩

lemma jumpLabel (isLabel : x.scope.IsLabel index) (result : R (.goto index v)) :
    Triple x (x.Exits R) closed ((x.Stands [] v).also fun s => s.pending = [])
      (Gen.jumpTo (.jump (.instruction index))) fun _ => x.Next R := by
  refine emit_closing rfl closeReserve_closes (fun s t known run => ?_)
    (fun s c t known holds run => ?_) rfl
  all_goals cases run
  · exact known.2
  · exact ⟨_, .goto (.instruction index), _, rfl,
      .inr ⟨_, rfl, isLabel, v, result, represents_of_empty known.1 holds⟩⟩

lemma jump
    (result : ∀ index, Word.toIndex? target = some index → x.scope.IsLabel index →
      R (.goto index v)) :
    Triple x (x.Exits R) closed (x.Stands [] v) (Gen.jump x.scope target) fun _ => x.Next R := by
  unfold Gen.jump
  exact noPending_bind <| labelTarget_bind fun index known isLabel =>
    jumpLabel isLabel (result index known isLabel)

/-- A branch to a label that depends on the processor, where no value is pending. -/
lemma branchLabel {op : Operation γ φ} {taken : Bool} (proper : op.isProper)
    (isLabel : x.scope.IsLabel index)
    (performs : ∀ p s, fact p →
      x.perform op p s = .ok (p, Processor.Flow.when taken (.instruction index)) s)
    (goes : taken = true → R (.goto index v)) (none : op.slots = []) :
    Triple x (x.Exits R) closed (((x.Stands held v).having fact).also fun s => s.pending = [])
      (Gen.jumpTo op) fun _ => (x.Stands held v).given (taken = false) := by
  refine emit_closing proper closeReserve_closes (fun s t known run => ?_)
    (fun s c t known holds run => ?_) none
  all_goals cases run
  · exact known.2
  · refine ⟨_, _, _, performs c.proc c.state holds.1, ?_⟩
    cases taken with
    | true => exact .inr ⟨_, rfl, isLabel, v, goes rfl, represents_of_empty known.1 holds.2⟩
    | false => exact .inl ⟨rfl, rfl, holds.2⟩

lemma emitCompare {dst : Lease γ} {src : Src γ}
    (operand : ∀ s c, P.known s → (x.Stands ((.reg dst, left) :: held) v).holds s c →
      c.proc.src src = right)
    (known : ∀ s, P.known s → (x.Stands ((.reg dst, left) :: held) v).known s)
    (holds : ∀ s c, P.holds s c → (x.Stands ((.reg dst, left) :: held) v).holds s c)
    (uses : ∀ s, P.known s → ∀ slot ∈ src.slots, IsUsed x.locals slot) :
    Triple x E closed P (Gen.emit (.compare dst.reg src)) fun _ =>
      (x.Stands ((.reg dst, left) :: held) v).having fun p => p.compared = (left, right) := by
  refine emit_quiet rfl known (fun s c knows before => ?_) uses
  have stands := holds s c before
  have first : c.proc.int dst.reg = left := Stands.value stands
  have second := operand s c knows stands
  obtain ⟨pend, below, keys, stack, rep⟩ := stands
  refine ⟨{ c.proc with compared := (left, right) }, ?_, rfl, pend, below, keys, stack,
    rep.setCompared _⟩
  rw [← first, ← second]
  rfl

omit [DecidableEq γ] in
/-- Bringing a value into a register leaves the pending values alone. -/
lemma toIntReg_pending {lease : Lease γ} (run : Gen.toIntReg u s = .ok lease t) :
    t.pending = s.pending := by
  cases u <;> cases run <;> rfl

/-- Dropping a value appends nothing. -/
lemma discard_ops {a : Unit} (run : Gen.discard u s = .ok a t) : t.ops = s.ops := by
  cases u <;> cases run <;> rfl

lemma jumpWhen {expected : Word} (stack : v.stack = w :: rest)
    (goes : w = expected → ∀ index, Word.toIndex? target = some index → x.scope.IsLabel index →
      R (.goto index (v.withStack rest))) (passes : w ≠ expected → R (.next (v.withStack rest))) :
    Triple x (x.Exits R) closed (x.Stands [] v) (Gen.jumpWhen x.scope target expected)
    fun _ => x.Next R := by
  refine (popInt stack).bind fun u => noPending_bind <| labelTarget_bind
    fun index known isLabel => ?_
  have general : Triple x (x.Exits R) closed ((x.Stands [(u, w)] (v.withStack rest)).also
    fun s => s.pending = []) (do
        let reg ← Gen.toIntReg u
        Gen.emit (.compare reg.reg (.imm expected))
        Gen.jumpTo (.branch .eq (.instruction index))
        Gen.releaseInt reg) fun _ => x.Next R := by
    refine (toIntReg.frame (fun s => s.pending = []) fun run empty =>
      (toIntReg_pending run).trans empty).bind fun reg => ?_
    have compares : Triple x (x.Exits R) closed (x.Stands [(.reg reg, w)] (v.withStack rest))
        (Gen.emit (.compare reg.reg (.imm expected))) fun _ =>
          (x.Stands [(.reg reg, w)] (v.withStack rest)).having
            fun p => p.compared = (w, expected) :=
      emitCompare (fun _ _ _ _ => rfl) (fun _ => id) (fun _ _ => id) uses_nil
    refine (compares.frame (fun s => s.pending = []) fun run empty => by
      cases run; exact empty).bind fun _ => ?_
    refine (branchLabel (R := R) (v := v.withStack rest) rfl isLabel (fun p s compared => ?_)
      (fun taken => goes (eq_of_beq taken) index known isLabel) rfl).bind fun _ =>
        assuming (releaseInt.toNext fun notTaken => passes (ne_of_beq_false notTaken))
    have run : x.perform (.branch .eq (.instruction index)) p s =
        .ok (p, Processor.Flow.when (p.compared.1 == p.compared.2) (.instruction index)) s := rfl
    rw [run, compared]
  split
  · next a =>
    have folded : Triple x (x.Exits R) closed
        (((x.Stands [] (v.withStack rest)).also fun s => s.pending = []).given (a = w))
        (if a = expected then Gen.jumpTo (.jump (.instruction index)) else Pure.pure ())
        fun _ => x.Next R := by
      refine assuming ?_
      split
      · next taken => exact jumpLabel isLabel fun same => goes (same ▸ taken) index known isLabel
      · next notTaken =>
        exact pure (fun _ known => known.2) fun _ _ _ holds =>
          ⟨_, fun same => passes (same ▸ notTaken), holds⟩
    exact folded.pre (fun _ known => ⟨known.1, known.2.2.drop rfl rfl⟩)
      fun _ _ _ holds => ⟨Stands.value holds, Stands.drop holds⟩
  · exact general.pre (fun _ known => ⟨known.1, known.2.2⟩) fun _ _ _ => id

/-! ### Comparisons -/

/-- The results of a comparison with truth value `b`, alone and with the jump that is compiled with
it. -/
structure Compares (scope : Scope) (next : Option Instruction) (v : Ideal) (b : Bool)
    (R : Bool → Ideal.Result → Prop) : Prop where
  alone : R false (.next (v.push (Word.ofBool b)))
  goes : ∀ target index, fusedJump? next = some (target, b) → Word.toIndex? target = some index →
    scope.IsLabel index → R true (.goto index v)
  passes : ∀ target, fusedJump? next = some (target, !b) → R true (.next v)

section Compare

variable {next : Option Instruction} {relation : Comparison} {b : Bool}
  {R : Bool → Ideal.Result → Prop}

/-- The jump that is compiled with a comparison. -/
lemma fusedBranch {target : Word} {expected : Bool} (op : JumpTarget → Operation γ φ)
    {fact : Processor γ φ → Prop} (compares : Compares x.scope next v b R)
    (fused : fusedJump? next = some (target, expected))
    (proper : ∀ target, (op target).isProper) (none : ∀ target, (op target).slots = [])
    (performs : ∀ target p s, fact p →
      x.perform (op target) p s = .ok (p, Processor.Flow.when (b == expected) target) s) :
    Triple x (x.Exits (R true)) closed ((x.Stands [] v).having fact) (do
      unless ← Gen.noPending do Gen.badShape .conditionalJump
      let target ← Gen.labelTarget x.scope target
      Gen.jumpTo (op target)
      return true) fun fused => x.Next (R fused) := by
  refine noPending_bind <| labelTarget_bind fun index known isLabel => ?_
  refine (branchLabel (R := R true) (proper _) isLabel (performs _) (fun taken => ?_) (none _)).bind
    fun _ => ?_
  · rw [← eq_of_beq taken] at fused
    exact compares.goes target index fused known isLabel
  · refine pure (fun _ => id) fun s c _ holds => ⟨v, ?_, holds.2⟩
    have other : expected = !b := by
      have different := holds.1
      revert different
      cases b <;> cases expected <;> simp
    rw [other] at fused
    exact compares.passes target fused

/-- A comparison, with the jump after it if there is one. -/
lemma compare (stack : v.stack = right :: left :: rest)
    (compares : Compares x.scope next (v.withStack rest) (relation.evalWord left right) R) :
    Triple x (x.Exits (R true)) closed (x.Stands [] v) (Gen.compare x.scope next relation)
      fun fused => x.Next (R fused) := by
  refine popOperands stack fun r l => ?_
  split
  · refine (pushFolded (R := R false) _ rfl rfl rfl fun sameLeft sameRight _ => ?_).bind fun _ =>
      done rfl
    rw [sameLeft, sameRight]
    exact compares.alone
  · refine leftToReg.bind fun dst => ?_
    have recorded : Triple x (x.Exits (R true)) closed
        ((x.Stands [(.reg dst, left), (r, right)] (v.withStack rest)).also fun _ => r.float? = none)
        (Gen.emit (.compare dst.reg (srcOf r))) fun _ =>
          (x.Stands [(.reg dst, left), (r, right)] (v.withStack rest)).having
            fun p => p.compared = (left, right) :=
      emitCompare (fun s c known holds => (src_srcOf _ known.1).trans
        (Stands.value (Stands.drop holds))) (fun _ known => known.2) (fun _ _ => id)
        fun _ known => Owned.isUsed known.2 (.tail _ (.head _))
    refine recorded.bind fun _ => (discard.swapHeld.having discard_ops).bind fun _ => ?_
    split
    · next target expected fused =>
      refine (releaseInt.having fun run => by cases run; rfl).bind fun _ => ?_
      refine fusedBranch (.branch (if expected then relation else relation.invert)) compares fused
        (fun _ => rfl) (fun _ => rfl) fun target p s compared => ?_
      have run (relation : Comparison) : x.perform (.branch relation target) p s = .ok (p,
        Processor.Flow.when (relation.evalWord p.compared.1 p.compared.2) target) s := rfl
      rw [run, compared]
      cases expected with
      | true => rw [if_pos rfl, beq_true]
      | false => rw [if_neg Bool.false_ne_true, Comparison.evalWord_invert, beq_false]
    · refine Triple.bind (Q := fun _ => x.Stands
        [(.reg dst, Word.ofBool (relation.evalWord left right))] (v.withStack rest))
        (emitInt rfl (fun _ => id) (fun s c _ holds => ⟨⟨_, holds.2⟩, ?_⟩) uses_nil) fun _ =>
          (pushNext (R := R false) compares.alone).bind fun _ => done rfl
      have run : x.perform (.setCond dst.reg relation) c.proc c.state = .ok (c.proc.setInt dst.reg
        (Word.ofBool (relation.evalWord c.proc.compared.1 c.proc.compared.2)), .next) c.state := rfl
      rw [run, holds.1]

/-- A comparison of doubles, with the jump after it if there is one. -/
lemma floatCompare (stack : v.stack = right :: left :: rest)
    (compares : Compares x.scope next (v.withStack rest)
      (Double.compare relation (.ofWord left) (.ofWord right)) R) :
    Triple x (x.Exits (R true)) closed (x.Stands [] v) (Gen.floatCompare x.scope next relation)
      fun fused => x.Next (R fused) := by
  refine popDoubles stack fun r l => ?_
  split
  · refine (pushFoldedDoubles (R := R false) _ rfl rfl rfl fun sameLeft sameRight _ => ?_).bind
      fun _ =>
      done rfl
    rw [← sameLeft, ← sameRight]
    exact compares.alone
  · refine toFloatRegs fun l r => ?_
    split
    · next target expected fused =>
      let values (p : Processor γ φ) : Prop := p.float l.reg = .ofWord left ∧
        p.float r.reg = .ofWord right
      have released : Triple x (x.Exits (R true)) closed
          ((x.Stands [(.floatReg l, left), (.floatReg r, right)] (v.withStack rest)).having values)
          (do
            Gen.releaseFloat l
            Gen.releaseFloat r
            unless ← Gen.noPending do Gen.badShape .conditionalJump
            let target ← Gen.labelTarget x.scope target
            Gen.jumpTo (.floatCompareBranch relation expected l.reg r.reg target)
            return true) fun fused => x.Next (R fused) := by
        refine (releaseFloat.having fun run => by cases run; rfl).bind fun _ =>
          (releaseFloat.having fun run => by cases run; rfl).bind fun _ =>
            fusedBranch (.floatCompareBranch relation expected l.reg r.reg) compares fused
              (fun _ => rfl) (fun _ => rfl) fun target p s values => ?_
        rw [← values.1, ← values.2]
        rfl
      exact released.pre (fun _ => id) fun s c _ holds =>
        ⟨⟨Stands.float holds, Stands.float (Stands.drop holds)⟩, holds⟩
    · refine acquireInt.bind fun dst => Triple.bind (Q := fun _ => x.Stands
        [(.reg dst, Word.ofBool (Double.compare relation (.ofWord left) (.ofWord right))),
          (.floatReg l, left), (.floatReg r, right)] (v.withStack rest))
        (emitInt rfl (fun _ => id) (fun s c _ stands => ⟨stands, ?_⟩) uses_nil) fun _ =>
          releaseFloat.swapHeld.bind fun _ => releaseFloat.swapHeld.bind fun _ =>
            (pushNext (R := R false) compares.alone).bind fun _ => done rfl
      obtain ⟨w, holds⟩ := stands
      rw [← Stands.float (Stands.drop holds), ← Stands.float (Stands.drop (Stands.drop holds))]
      rfl

end Compare

/-! ### Labels -/

/-- Where no value is pending, a label is bound to the place of the code. -/
lemma bindLabel (result : R (.next v)) :
    Triple x E closed ((x.Stands [] v).also fun s => s.pending = []) (do
      modify fun s => { s with covered := 0, openReserve := none }
      Gen.emit (.bind (.instruction (← get).ip))) fun _ => x.Next R where
  adds {s t a} _ run := by
    cases run
    exact ⟨⟨#[.bind (.instruction s.ip)], by simp, by simp⟩, id, .inr rfl, absurd rfl, rfl⟩
  knows _ run _ known := by
    cases run
    exact known.2
  uses _ run _ _ before := by
    cases run
    exact before.push (List.forall_mem_nil _)
  runs {s t a} _ run _ grows known c at_c holds := by
    cases run
    have fetch : x.ops[c.place]? = some (.bind (.instruction s.ip)) :=
      at_c ▸ grows.keeps s.ops.size _ Array.getElem?_push_size (.inl rfl)
    refine .inl ⟨1, _, .single fetch rfl, ?_, absurd rfl, v, result, [], v.stack, known.1.symm, rfl,
      represents_of_empty known.1 holds⟩
    rw [at_c]
    exact (Array.size_push _).symm

/-- A label; nothing is known there about the room above the stack in memory. -/
lemma label (result : R (.next v)) :
    Triple x E closed (x.Stands [] v) Gen.label fun _ => x.Next R := by
  unfold Gen.label
  exact noPending_bind (bindLabel result)

end Triple

end StackMachine.Native
