import StackMachine.Proofs.Native.Representation
import StackMachine.Proofs.Native.Triple

/-!
# Values in the generator

What the parts of the generator that handle single values do: registers are lent and returned, the
top value is taken, brought into a register, kept or dropped.  `Stands x held v` says that the
pending values over the operand stack in memory stand for the ideal machine in state `v`, and that
the part of the generator at work holds the values `held` besides.
-/

namespace StackMachine.Native

variable {γ φ : Type} [DecidableEq γ] [DecidableEq φ]

/-- The bits of a word read as a double are its bits. -/
@[simp]
lemma toWord_ofWord (w : Word) : (Double.ofWord w).toWord = w := by
  simp [Double.ofWord, Double.toWord]

/-- The word of a double has the double's bits. -/
@[simp]
lemma ofWord_toWord (d : Double) : Double.ofWord d.toWord = d := by
  simp [Double.ofWord, Double.toWord]

/-- The generator and a configuration stand for the ideal machine. -/
def Execution.Stands (x : Execution γ φ) (held : List (Pending γ φ × Word)) (v : Ideal) :
    Assertion γ φ where
  known s := Owned x.locals s.ints s.floats (held.map Prod.fst ++ s.pending)
  holds s c := ∃ pend below, pend.map Prod.fst = s.pending ∧ v.stack = pend.map Prod.snd ++ below ∧
    x.Represents s.covered (held ++ pend) below v.mem v.machine c.proc c.state

/-- As `Execution.Stands`, with one more value that is held, of which the word is not known. -/
def Execution.Holding (x : Execution γ φ) (u : Pending γ φ) (held : List (Pending γ φ × Word))
    (v : Ideal) : Assertion γ φ where
  known := (x.Stands ((u, 0) :: held) v).known
  holds s c := ∃ w, (x.Stands ((u, w) :: held) v).holds s c

/-- The stack in memory is not empty, and it and the values in the generator's charge are in a
relation. -/
def Execution.Taking (x : Execution γ φ) (us : List (Pending γ φ))
    (F : List (Pending γ φ × Word) → List Word → Prop) (mem : Array Word) (machine : Machine) :
    Assertion γ φ where
  known s := Owned x.locals s.ints s.floats (us ++ s.pending)
  holds s c := ∃ vals w below, vals.map Prod.fst = us ++ s.pending ∧ F vals (w :: below) ∧
    x.Represents s.covered vals (w :: below) mem machine c.proc c.state

/-- As `Execution.Taking`, after the word on top of the stack in memory has become a value. -/
def Execution.Took (x : Execution γ φ) (u : Pending γ φ) (us : List (Pending γ φ))
    (F : List (Pending γ φ × Word) → List Word → Prop) (mem : Array Word) (machine : Machine) :
    Assertion γ φ where
  known s := Owned x.locals s.ints s.floats (u :: (us ++ s.pending))
  holds s c := ∃ vals w below, vals.map Prod.fst = us ++ s.pending ∧ F vals (w :: below) ∧
    x.Represents s.covered ((u, w) :: vals) below mem machine c.proc c.state

namespace Execution.Stands

variable {x : Execution γ φ} {held held' : List (Pending γ φ × Word)} {v : Ideal}
  {s : GenState γ φ} {c : Config γ φ} {u : Pending γ φ} {w : Word} {lease : Lease φ}

/-- The order of the values that are held does not matter. -/
lemma perm (h : (x.Stands held v).holds s c) (same : held.Perm held') :
    (x.Stands held' v).holds s c :=
  let ⟨pend, below, keys, stack, rep⟩ := h
  ⟨pend, below, keys, stack, rep.perm (same.append_right pend)⟩

/-- The order of the values that are held does not matter to what is known. -/
lemma known_perm (h : (x.Stands held v).known s) (same : held.Perm held') :
    (x.Stands held' v).known s :=
  Owned.perm h ((same.map _).append_right _)

/-- The first value that is held has its word. -/
lemma value (h : (x.Stands ((u, w) :: held) v).holds s c) : u.value c.proc = w :=
  let ⟨_, _, _, _, rep⟩ := h
  rep.value

/-- What all threads share is the ideal machine's. -/
lemma machine_eq (h : (x.Stands held v).holds s c) : c.state.machine = v.machine :=
  let ⟨_, _, _, _, rep⟩ := h
  rep.machine_eq

/-- The first value that is held has its double, if it is in a float register. -/
lemma float (h : (x.Stands ((.floatReg lease, w) :: held) v).holds s c) :
    c.proc.float lease.reg = .ofWord w := by
  rw [← value h]
  exact (ofWord_toWord _).symm

/-- The first value that is held is dropped. -/
lemma drop {a : Pending γ φ × Word} (h : (x.Stands (a :: held) v).holds s c) :
    (x.Stands held v).holds s c :=
  let ⟨pend, below, keys, stack, rep⟩ := h
  ⟨pend, below, keys, stack, rep.drop⟩

lemma add (h : (x.Stands held v).holds s c) (value : u.value c.proc = w) :
    (x.Stands ((u, w) :: held) v).holds s c :=
  let ⟨pend, below, keys, stack, rep⟩ := h
  ⟨pend, below, keys, stack, rep.add value⟩

/-- The register of the first value that is held is written. -/
lemma setInt {lease : Lease γ}
    (known : Owned x.locals s.ints s.floats (.reg lease :: (held.map Prod.fst ++ s.pending)))
    (h : (x.Stands ((.reg lease, w) :: held) v).holds s c) (w' : Word) (place : Nat) :
    (x.Stands ((.reg lease, w') :: held) v).holds s ⟨place, c.proc.setInt lease.reg w', c.state⟩ :=
  let ⟨pend, below, keys, stack, rep⟩ := h
  ⟨pend, below, keys, stack, rep.drop.setInt (Owned.int?_ne known keys) w'⟩

/-- The float register of the first value that is held is written. -/
lemma setFloat {w' : Word} {d : Double}
    (known : Owned x.locals s.ints s.floats (.floatReg lease :: (held.map Prod.fst ++ s.pending)))
    (h : (x.Stands ((.floatReg lease, w) :: held) v).holds s c) (word : d.toWord = w')
    (place : Nat) :
    (x.Stands ((.floatReg lease, w') :: held) v).holds s
      ⟨place, c.proc.setFloat lease.reg d, c.state⟩ :=
  let ⟨pend, below, keys, stack, rep⟩ := h
  ⟨pend, below, keys, stack, word ▸ rep.drop.setFloat (Owned.float?_ne known keys) d⟩

end Execution.Stands

/-- The operand of a value that is not in a float register is its word. -/
lemma src_srcOf (p : Processor γ φ) {u : Pending γ φ} (noFloat : u.float? = none) :
    p.src (Gen.srcOf u) = u.value p := by
  cases u with
  | floatReg lease => cases noFloat
  | _ => rfl

omit [DecidableEq γ] [DecidableEq φ] in
/-- The slot of a value that the generator has charge of is one of a local. -/
lemma Owned.isUsed {locals : Nat} {ints : RegisterPool γ} {floats : RegisterPool φ}
    {us : List (Pending γ φ)} {u : Pending γ φ} (owned : Owned locals ints floats us)
    (mem : u ∈ us) :
    ∀ slot ∈ (Gen.srcOf u).slots, IsUsed locals slot := by
  intro slot isSlot
  cases u with
  | slot k | floatSlot k =>
    cases List.mem_singleton.1 isSlot
    exact isUsed_localSlot (owned.locals _ mem k rfl)
  | _ => cases isSlot

namespace Triple

open Gen Execution

variable {α : Type} {x : Execution γ φ} {E : ExitAssertion γ φ} {closed : Bool}
  {held held' : List (Pending γ φ × Word)} {v : Ideal} {w w' : Word} {u : Pending γ φ}
  {g : Gen γ φ α} {Q : α → Assertion γ φ} {lease : Lease γ} {P : Assertion γ φ} {op : Operation γ φ}
  {s t : GenState γ φ} {rest : List Word}

/-- The order of the values that are held does not matter. -/
lemma reorder (h : Triple x E closed (x.Stands held v) g Q) (same : held'.Perm held) :
    Triple x E closed (x.Stands held' v) g Q :=
  h.pre (fun _ known => Stands.known_perm known same) fun _ _ _ holds => Stands.perm holds same

/-- The first two values that are held change places. -/
lemma swapHeld {a b : Pending γ φ × Word}
    (h : Triple x E closed (x.Stands (a :: b :: held) v) g Q) :
    Triple x E closed (x.Stands (b :: a :: held) v) g Q :=
  h.reorder (.swap a b held)

/-! ### Registers -/

section Pools

-- Whatever else holds does not depend on the pools.
variable {us : List (Pending γ φ)} {holds : GenState γ φ → Config γ φ → Prop}
  (same : ∀ s ints floats c, holds s c → holds { s with ints, floats } c)
include same

lemma acquireIntOwned : Triple x E closed
    ⟨fun s => Owned x.locals s.ints s.floats (us ++ s.pending), holds⟩ Gen.acquireInt fun lease =>
      ⟨fun s => Owned x.locals s.ints s.floats (.reg lease :: (us ++ s.pending)), holds⟩ := by
  refine still (fun _ run => ?_) (fun run alive known => ?_) fun run _ _ c before => ?_
  all_goals cases run
  · exact ⟨rfl, .ofSame rfl (fun alive => ⟨RegisterPool.failed_acquire alive.1, alive.2⟩) (.inl rfl)
      (fun _ => rfl) rfl⟩
  · exact Owned.acquireInt known alive.1
  · exact same _ _ _ c before

lemma acquireFloatOwned : Triple x E closed
    ⟨fun s => Owned x.locals s.ints s.floats (us ++ s.pending), holds⟩ Gen.acquireFloat fun lease =>
      ⟨fun s => Owned x.locals s.ints s.floats (.floatReg lease :: (us ++ s.pending)), holds⟩ := by
  refine still (fun _ run => ?_) (fun run alive known => ?_) fun run _ _ c before => ?_
  all_goals cases run
  · exact ⟨rfl, .ofSame rfl (fun alive => ⟨alive.1, RegisterPool.failed_acquire alive.2⟩) (.inl rfl)
      (fun _ => rfl) rfl⟩
  · exact Owned.acquireFloat known alive.2
  · exact same _ _ _ c before

lemma discardOwned : Triple x E closed
    ⟨fun s => Owned x.locals s.ints s.floats (u :: (us ++ s.pending)), holds⟩ (Gen.discard u)
    fun _ => ⟨fun s => Owned x.locals s.ints s.floats (us ++ s.pending), holds⟩ := by
  cases u with
  | reg lease =>
    refine still (fun {s t a} _ run => ?_) (fun run _ known => ?_) fun run _ _ c before => ?_
    all_goals cases run
    · refine ⟨rfl, .ofSame rfl (fun alive => ?_) (.inl rfl) (fun _ => rfl) rfl⟩
      exact ⟨(s.ints.failed_release lease).symm.trans alive.1, alive.2⟩
    · exact Owned.releaseInt known
    · exact same _ _ _ c before
  | floatReg lease =>
    refine still (fun {s t a} _ run => ?_) (fun run _ known => ?_) fun run _ _ c before => ?_
    all_goals cases run
    · refine ⟨rfl, .ofSame rfl (fun alive => ?_) (.inl rfl) (fun _ => rfl) rfl⟩
      exact ⟨alive.1, (s.floats.failed_release lease).symm.trans alive.2⟩
    · exact Owned.releaseFloat known
    · exact same _ _ _ c before
  | _ => exact pure (fun _ known => Owned.drop known rfl rfl) fun _ _ _ => id

end Pools

/-- A register is lent, with whatever is in it. -/
lemma acquireInt : Triple x E closed (x.Stands held v) Gen.acquireInt
    fun lease => x.Holding (.reg lease) held v :=
  (acquireIntOwned fun _ _ _ _ => id).post (fun _ _ => id) fun _ _ _ _ holds =>
    ⟨_, Stands.add holds rfl⟩

/-- A float register is lent, with whatever is in it. -/
lemma acquireFloat : Triple x E closed (x.Stands held v) Gen.acquireFloat
    fun lease => x.Holding (.floatReg lease) held v :=
  (acquireFloatOwned fun _ _ _ _ => id).post (fun _ _ => id) fun _ _ _ _ holds =>
    ⟨_, Stands.add holds rfl⟩

lemma discard : Triple x E closed (x.Stands ((u, w) :: held) v) (Gen.discard u)
    fun _ => x.Stands held v :=
  have dropped : Triple x E closed ⟨(x.Stands ((u, w) :: held) v).known, (x.Stands held v).holds⟩
      (Gen.discard u) fun _ => x.Stands held v := discardOwned fun _ _ _ _ => id
  dropped.pre (fun _ => id) fun _ _ _ holds => Stands.drop holds

lemma releaseInt : Triple x E closed (x.Stands ((.reg lease, w) :: held) v)
    (Gen.releaseInt lease) fun _ => x.Stands held v :=
  discard (u := .reg lease)

lemma releaseFloat {lease : Lease φ} :
    Triple x E closed (x.Stands ((.floatReg lease, w) :: held) v) (Gen.releaseFloat lease)
    fun _ => x.Stands held v :=
  discard (u := .floatReg lease)

/-- An operation writes a register that is held. -/
lemma emitInt (proper : op.isProper)
    (knows : ∀ s, P.known s → (x.Stands ((.reg lease, w') :: held) v).known s)
    (performs : ∀ s c, P.known s → P.holds s c →
      (∃ w, (x.Stands ((.reg lease, w) :: held) v).holds s c) ∧
      x.perform op c.proc c.state = .ok (c.proc.setInt lease.reg w', .next) c.state)
    (uses : ∀ s, P.known s → ∀ slot ∈ op.slots, IsUsed x.locals slot) :
    Triple x E closed P (Gen.emit op) fun _ => x.Stands ((.reg lease, w') :: held) v := by
  refine emit_quiet proper knows (fun s c known holds => ?_) uses
  obtain ⟨⟨w, stands⟩, run⟩ := performs s c known holds
  exact ⟨_, run, Stands.setInt (knows s known) stands w' _⟩

/-- An operation computes on a register that is held. -/
lemma emitUnary (proper : op.isProper) {eval : Word → Word}
    (performs : ∀ p s, x.perform op p s = .ok (p.setInt lease.reg (eval (p.int lease.reg)),
      .next) s) (none : op.slots = []) :
    Triple x E closed (x.Stands ((.reg lease, w) :: held) v) (Gen.emit op)
      fun _ => x.Stands ((.reg lease, eval w) :: held) v := by
  refine emitInt proper (fun _ => id) (fun s c _ holds => ⟨⟨w, holds⟩, ?_⟩)
    fun _ _ => none ▸ List.forall_mem_nil _
  have value : c.proc.int lease.reg = w := Stands.value holds
  rw [performs, value]

/-- An operation computes on a register that is held and on an operand. -/
lemma emitBinary (proper : op.isProper) {eval : Word → Word → Word}
    (performs : ∀ p s, x.perform op p s =
      .ok (p.setInt lease.reg (eval (p.int lease.reg) (p.src (srcOf u))), .next) s)
    (named : op.slots = (srcOf u).slots) :
    Triple x E closed ((x.Stands ((.reg lease, w) :: (u, w') :: held) v).also
      fun _ => u.float? = none) (Gen.emit op)
      fun _ => x.Stands ((.reg lease, eval w w') :: (u, w') :: held) v := by
  refine emitInt proper (fun _ known => known.2) (fun s c known holds => ⟨⟨_, holds⟩, ?_⟩)
    fun s known => named ▸ Owned.isUsed known.2 (.tail _ (.head _))
  have first : c.proc.int lease.reg = w := Stands.value holds
  have second : c.proc.src (srcOf u) = w' := by
    rw [src_srcOf _ known.1]
    exact Stands.value (Stands.drop holds)
  rw [performs, first, second]

/-- An operation writes a float register that is held. -/
lemma emitFloat {lease : Lease φ} {d : Double} (proper : op.isProper)
    (knows : ∀ s, P.known s → (x.Stands ((.floatReg lease, w') :: held) v).known s)
    (performs : ∀ s c, P.known s → P.holds s c →
      (∃ w, (x.Stands ((.floatReg lease, w) :: held) v).holds s c) ∧
      x.perform op c.proc c.state = .ok (c.proc.setFloat lease.reg d, .next) c.state)
    (word : d.toWord = w') (uses : ∀ s, P.known s → ∀ slot ∈ op.slots, IsUsed x.locals slot) :
    Triple x E closed P (Gen.emit op) fun _ => x.Stands ((.floatReg lease, w') :: held) v := by
  refine emit_quiet proper knows (fun s c known holds => ?_) uses
  obtain ⟨⟨w, stands⟩, run⟩ := performs s c known holds
  exact ⟨_, run, Stands.setFloat (knows s known) stands word _⟩

/-! ### Pending values -/

lemma pushPending : Triple x E closed (x.Stands ((u, w) :: held) v) (Gen.pushPending u)
    fun _ => x.Stands held (v.push w) := by
  refine still (fun _ run => ?_) (fun run alive known => ?_) fun run alive known c holds => ?_
  all_goals cases run
  · exact ⟨rfl, .ofSame rfl id (.inl rfl) (fun _ => rfl) rfl⟩
  · exact Owned.perm known List.perm_middle.symm
  · obtain ⟨pend, below, keys, stack, rep⟩ := holds
    exact ⟨(u, w) :: pend, below, congrArg (u :: ·) keys, congrArg (w :: ·) stack,
      rep.perm List.perm_middle.symm⟩

omit [DecidableEq γ] [DecidableEq φ] in
/-- Recording that a word left the stack in memory closes the reservation. -/
lemma poppedMemory_closes (run : poppedMemory s = .ok () t) :
    t.ops = s.ops ∧ s.Adds t ∧ t.openReserve = none := by
  cases run
  exact ⟨rfl, .ofSame rfl id (.inr rfl) (absurd rfl) rfl, rfl⟩

/-- Where no value is pending, the stack of the ideal machine is the stack in memory. -/
lemma below_eq {c : Config γ φ} (empty : s.pending = [])
    (top : v.stack = w :: rest) (holds : (x.Stands held v).holds s c) :
    x.Represents s.covered held (w :: rest) v.mem v.machine c.proc c.state := by
  obtain ⟨pend, below, keys, stack, rep⟩ := holds
  rw [empty, List.map_eq_nil_iff] at keys
  subst keys
  obtain rfl : below = w :: rest := stack.symm.trans top
  rwa [List.append_nil] at rep

section Taking

variable {us : List (Pending γ φ)} {F : List (Pending γ φ × Word) → List Word → Prop}
  {mem : Array Word} {machine : Machine}

/-- The word on top of the stack in memory is taken into a register. -/
lemma takeMemory : Triple x E closed (x.Taking us F mem machine) Gen.popMemory
    fun u => x.Took u us F mem machine := by
  refine (acquireIntOwned fun _ _ _ _ => id).bind fun lease => ?_
  rw [← bind_assoc]
  refine (emit_closing (Q := fun _ => x.Took (.reg lease) us F mem machine) rfl
    poppedMemory_closes (fun s t known run => ?_) (fun s c t known holds run => ?_) rfl).bind
    fun _ =>
      done rfl
  all_goals cases run
  · exact known
  · obtain ⟨vals, w, below, keys, related, rep⟩ := holds
    refine ⟨_, .next, _, rfl, .inl ⟨rfl, vals, w, below, keys, related, ?_⟩⟩
    show x.Represents _ ((.reg lease, w) :: vals) below _ _
      (c.proc.setInt lease.reg c.state.context.stack.dropUnchecked.atCursor) _
    rw [rep.stack.atCursor_dropUnchecked]
    exact rep.popBelow.setInt (Owned.int?_fresh known keys) w

/-- The word on top of the stack in memory is taken into a float register. -/
lemma takeMemoryFloat : Triple x E closed (x.Taking us F mem machine) Gen.popMemoryFloat
    fun u => x.Took u us F mem machine := by
  refine (acquireFloatOwned fun _ _ _ _ => id).bind fun lease => ?_
  rw [← bind_assoc]
  refine (emit_closing (Q := fun _ => x.Took (.floatReg lease) us F mem machine) rfl
    poppedMemory_closes (fun s t known run => ?_) (fun s c t known holds run => ?_) rfl).bind
    fun _ =>
      done rfl
  all_goals cases run
  · exact known
  · obtain ⟨vals, w, below, keys, related, rep⟩ := holds
    refine ⟨_, .next, _, rfl, .inl ⟨rfl, vals, w, below, keys, related, ?_⟩⟩
    show x.Represents _ ((.floatReg lease, w) :: vals) below _ _
      (c.proc.setFloat lease.reg (.ofWord c.state.context.stack.dropUnchecked.atCursor)) _
    rw [rep.stack.atCursor_dropUnchecked]
    have moved := rep.popBelow.setFloat (Owned.float?_fresh known keys) (.ofWord w)
    rwa [toWord_ofWord] at moved

end Taking

omit [DecidableEq γ] [DecidableEq φ] in
/-- The top pending value is taken, or there is none. -/
lemma takePending_cases {o : Option (Pending γ φ)} (run : Gen.takePending s = .ok o t) :
    (o = none ∧ s.pending = [] ∧ t = s) ∨
      ∃ u below, o = some u ∧ s.pending = u :: below ∧ t = { s with pending := below } := by
  change EStateM.Result.ok _ _ = _ at run
  cases pending : s.pending with
  | nil =>
    rw [pending] at run
    cases run
    exact .inl ⟨rfl, rfl, rfl⟩
  | cons u below =>
    rw [pending] at run
    cases run
    exact .inr ⟨u, below, rfl, rfl, rfl⟩

/-! ### Moving values -/

/-- A value that is held is read in another way, both without a register. -/
lemma reread {u' : Pending γ φ} (noInt : u.int? = none) (noFloat : u.float? = none)
    (noInt' : u'.int? = none) (noFloat' : u'.float? = none) (sameLocal : u'.local? = u.local?)
    (sameValue : ∀ p, u'.value p = u.value p) :
    Triple x E closed (x.Stands ((u, w) :: held) v) (Pure.pure u')
      fun u' => (x.Stands ((u', w) :: held) v).also fun _ => u'.float? = none := by
  refine pure (fun s known => ⟨noFloat', ?_⟩) fun s c known holds => ?_
  · refine Owned.add (Owned.drop known noInt noFloat) noInt' noFloat' fun k read => ?_
    exact Owned.locals known u List.mem_cons_self k (sameLocal.symm.trans read)
  · exact Stands.add (Stands.drop holds) ((sameValue _).trans (Stands.value holds))

/-- The second value that is held, which is in no register, is dropped. -/
lemma dropSecond {a : α} {o o' : Pending γ φ × Word} (noInt : o'.1.int? = none)
    (noFloat : o'.1.float? = none)
    (after : ∀ s c, (x.Stands (o :: held) v).holds s c → (Q a).holds s c)
    (known : ∀ s, (x.Stands (o :: held) v).known s → (Q a).known s) :
    Triple x E closed (x.Stands (o :: o' :: held) v) (Pure.pure a) Q := by
  refine pure (fun s owned => known s ?_) fun s c _ holds => after s c ?_
  · exact Owned.drop (Stands.known_perm owned (.swap o' o held)) noInt noFloat
  · exact Stands.drop (Stands.perm holds (.swap o' o held))

/-- An operation computes on a value and writes the result into a register. -/
lemma emitConvert (proper : op.isProper) (eval : Word → Word)
    (performs : ∀ p s, x.perform op p s = .ok (p.setInt lease.reg (eval (u.value p)), .next) s)
    (named : op.slots = (srcOf u).slots) :
    Triple x E closed (x.Holding (.reg lease) ((u, w) :: held) v)
      (Gen.emit op) fun _ => x.Stands ((.reg lease, eval w) :: (u, w) :: held) v :=
  emitInt proper (fun _ => id) (fun s c _ ⟨w', holds⟩ =>
    ⟨⟨w', holds⟩, by rw [performs, Stands.value (Stands.drop holds)]⟩)
    fun _ known => named ▸ Owned.isUsed known (.tail _ (.head _))

/-- An operation brings the word of a value into a register. -/
lemma emitLoad (proper : op.isProper)
    (performs : ∀ p s, x.perform op p s = .ok (p.setInt lease.reg (u.value p), .next) s)
    (named : op.slots = (srcOf u).slots) :
    Triple x E closed (x.Holding (.reg lease) ((u, w) :: held) v)
      (Gen.emit op) fun _ => x.Stands ((.reg lease, w) :: (u, w) :: held) v :=
  emitConvert proper id performs named

/-- An operation computes on a value and writes the result into a float register. -/
lemma emitConvertFloat {lease : Lease φ} (proper : op.isProper) (eval : Word → Double)
    (performs : ∀ p s, x.perform op p s = .ok (p.setFloat lease.reg (eval (u.value p)), .next) s)
    (named : op.slots = (srcOf u).slots) :
    Triple x E closed (x.Holding (.floatReg lease) ((u, w) :: held) v)
      (Gen.emit op) fun _ => x.Stands ((.floatReg lease, (eval w).toWord) :: (u, w) :: held) v :=
  emitFloat proper (fun _ => id) (fun s c _ ⟨w', holds⟩ =>
    ⟨⟨w', holds⟩, by rw [performs, Stands.value (Stands.drop holds)]⟩) rfl
    fun _ known => named ▸ Owned.isUsed known (.tail _ (.head _))

/-- An operation brings the word of a value into a float register. -/
lemma emitLoadFloat {lease : Lease φ} (proper : op.isProper) (performs : ∀ p s,
      x.perform op p s = .ok (p.setFloat lease.reg (.ofWord (u.value p)), .next) s)
    (named : op.slots = (srcOf u).slots) :
    Triple x E closed (x.Holding (.floatReg lease) ((u, w) :: held) v)
      (Gen.emit op) fun _ => x.Stands ((.floatReg lease, w) :: (u, w) :: held) v :=
  emitConvertFloat proper Double.ofWord performs named

/-- A value is brought into an integer register. -/
lemma toIntReg : Triple x E closed (x.Stands ((u, w) :: held) v) (Gen.toIntReg u)
    fun lease => x.Stands ((.reg lease, w) :: held) v := by
  cases u with
  | reg lease => exact done rfl
  | floatReg lease =>
    refine acquireInt.bind fun dst => (emitLoad rfl (fun p s => rfl) rfl).bind fun _ => ?_
    exact (releaseFloat.swapHeld).bind fun _ => done rfl
  | _ =>
    refine acquireInt.bind fun dst => (emitLoad rfl (fun p s => rfl) rfl).bind fun _ => ?_
    exact dropSecond rfl rfl (fun _ _ => id) fun _ => id

/-- A value is brought into a float register. -/
lemma toFloatReg : Triple x E closed (x.Stands ((u, w) :: held) v) (Gen.toFloatReg u)
    fun lease => x.Stands ((.floatReg lease, w) :: held) v := by
  cases u with
  | floatReg lease => exact done rfl
  | reg lease =>
    refine acquireFloat.bind fun dst => (emitLoadFloat rfl (fun p s => rfl) rfl).bind fun _ => ?_
    exact (releaseInt.swapHeld).bind fun _ => done rfl
  | _ =>
    refine acquireFloat.bind fun dst => (emitLoadFloat rfl (fun p s => rfl) rfl).bind fun _ => ?_
    exact dropSecond rfl rfl (fun _ _ => id) fun _ => id

/-! ### Popping values -/

section

variable (top : v.stack = w :: rest)
include top

/-- A word is taken from the stack in memory where no value is pending. -/
lemma popMemory_of {g : Gen γ φ (Pending γ φ)}
    (takes : ∀ us F, Triple x E closed (x.Taking us F v.mem v.machine) g
      fun u => x.Took u us F v.mem v.machine)
    (stays : ∀ {s t : GenState γ φ} {u : Pending γ φ}, g s = .ok u t → t.pending = s.pending) :
    Triple x E closed ((x.Stands held v).also fun s => s.pending = []) g
      fun u => x.Stands ((u, w) :: held) (v.withStack rest) := by
  refine ((takes (held.map Prod.fst) fun vals memory => vals = held ∧ memory = v.stack).frame
    (fun s => s.pending = []) fun run empty => (stays run).trans empty).mono (fun _ => id)
      (fun s c ⟨empty, _⟩ holds => ?_) (fun _ _ known => known.2) fun u s c ⟨empty, _⟩ holds => ?_
  · exact ⟨held, w, rest, by rw [empty, List.append_nil], ⟨rfl, top.symm⟩, below_eq empty top holds⟩
  · obtain ⟨vals, w', below, -, ⟨rfl, memory⟩, rep⟩ := holds
    obtain ⟨rfl, rfl⟩ := List.cons_eq_cons.1 (memory.trans top)
    exact ⟨[], below, empty.symm, rfl, by rwa [List.append_nil]⟩

/-- A word is taken from the stack in memory where no value is pending. -/
lemma popMemory :
    Triple x E closed ((x.Stands held v).also fun s => s.pending = []) Gen.popMemory
      fun u => x.Stands ((u, w) :: held) (v.withStack rest) :=
  popMemory_of top (fun _ _ => takeMemory) fun run => by
    cases run
    rfl

/-- A double is taken from the stack in memory where no value is pending. -/
lemma popMemoryFloat :
    Triple x E closed ((x.Stands held v).also fun s => s.pending = []) Gen.popMemoryFloat
      fun u => x.Stands ((u, w) :: held) (v.withStack rest) :=
  popMemory_of top (fun _ _ => takeMemoryFloat) fun run => by
    cases run
    rfl

lemma takePending :
    Triple x E closed (x.Stands held v) Gen.takePending fun
      | some u => x.Stands ((u, w) :: held) (v.withStack rest)
      | none => (x.Stands held v).also fun s => s.pending = [] := by
  refine still (fun {s t a} _ run => ?_) (fun {s t a} run alive known => ?_)
    fun {s t a} run alive known c holds => ?_
  all_goals obtain ⟨rfl, pending, rfl⟩ | ⟨u, below, rfl, pending, rfl⟩ := takePending_cases run
  · exact ⟨rfl, .refl _⟩
  · exact ⟨rfl, .ofSame rfl id (.inl rfl) (fun _ => rfl) rfl⟩
  · exact ⟨pending, known⟩
  · have owned : Owned x.locals s.ints s.floats (held.map Prod.fst ++ s.pending) := known
    rw [pending] at owned
    exact owned.perm List.perm_middle
  · exact holds
  · obtain ⟨pend, below, keys, stack, rep⟩ := holds
    obtain ⟨o, pend, rfl, rfl, keys⟩ := List.map_eq_cons_iff.1 (keys.trans pending)
    obtain ⟨rfl, rfl⟩ : o.2 = w ∧ pend.map Prod.snd ++ below = rest :=
      List.cons.inj (stack.symm.trans top)
    exact ⟨pend, below, keys, rfl, rep.perm List.perm_middle⟩

lemma pop :
    Triple x E closed (x.Stands held v) Gen.pop fun u => x.Stands ((u, w) :: held)
    (v.withStack rest) := by
  refine (takePending top).bind fun o => ?_
  cases o with
  | none => exact popMemory top
  | some u => exact done rfl

/-- The top value is taken where a double is wanted. -/
lemma popFloat :
    Triple x E closed (x.Stands held v) Gen.popFloat fun u => x.Stands ((u, w) :: held)
    (v.withStack rest) := by
  refine (takePending top).bind fun o => ?_
  cases o with
  | none => exact popMemoryFloat top
  | some u => exact done rfl

lemma popInt : Triple x E closed (x.Stands held v) Gen.popInt
      fun u => (x.Stands ((u, w) :: held) (v.withStack rest)).also fun _ => u.float? = none := by
  refine (pop top).bind fun u => ?_
  cases u with
  | floatReg lease =>
    refine acquireInt.bind fun dst => (emitLoad rfl (fun p s => rfl) rfl).bind fun _ => ?_
    exact (releaseFloat.swapHeld).bind fun _ => pure (fun _ known => ⟨rfl, known⟩) fun _ _ _ => id
  | floatImm d | floatSlot k => exact reread rfl rfl rfl rfl rfl fun _ => rfl
  | _ => exact pure (fun _ known => ⟨rfl, known⟩) fun _ _ _ => id

/-- The top value is taken into an integer register. -/
lemma popIntReg : Triple x E closed (x.Stands held v) Gen.popIntReg
      fun lease => x.Stands ((.reg lease, w) :: held) (v.withStack rest) :=
  (popInt top).bind fun _ => toIntReg.forget

end

/-- A value is brought where a store to a local does not change it. -/
lemma pin : Triple x E closed (x.Stands ((u, w) :: held) v) (Gen.pin u)
    fun u' => (x.Stands ((u', w) :: held) v).also fun _ => u'.local? = none := by
  cases u with
  | slot k => exact toIntReg.bind fun _ => pure (fun _ known => ⟨rfl, known⟩) fun _ _ _ => id
  | floatSlot k => exact toFloatReg.bind fun _ => pure (fun _ known => ⟨rfl, known⟩) fun _ _ _ => id
  | _ => exact pure (fun _ known => ⟨rfl, known⟩) fun _ _ _ => id

end Triple

end StackMachine.Native
