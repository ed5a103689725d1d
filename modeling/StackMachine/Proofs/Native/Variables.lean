import StackMachine.Proofs.Locals
import StackMachine.Proofs.Native.Outcome

/-!
# Variables in compiled code

Locals live in slots of the frame, and a local that is loaded stays pending unread until it is
needed. Before a local is written, every pending value that still has to be read from it is read
(`readLocal`); this is what makes the delay invisible.  Fields and the memory of a class are reached
through a checked handle.
-/

namespace StackMachine

variable {slot : Word}

/-- Writing a local with the word that it has changes nothing. -/
lemma Ideal.setLocal_self {v : Ideal} {w : Word} (same : v.getLocal slot = w) :
    v.setLocal slot w = v := by
  have mem : v.mem.setIfInBounds (slot.toInt.toNat + 1) w = v.mem := by
    refine Array.ext (by simp) fun i _ bound => ?_
    rw [Array.getElem_setIfInBounds bound]
    split
    · next here =>
      subst here
      rw [← same, Ideal.getLocal, Array.getD_eq_getD_getElem?, Array.getElem?_eq_getElem bound]
      rfl
    · rfl
  rw [Ideal.setLocal, mem]

/-- The number of the local after a local. -/
lemma Word.toNat_succ (nonneg : 0 ≤ slot) (small : slot ≤ 0xFFFFFFFF) :
    (slot + 1).toInt.toNat = slot.toInt.toNat + 1 :=
  (toIndex?_eq_some_iff.1 (toIndex?_succ nonneg (ne_maxValue small))).2

namespace Native

variable {γ φ : Type} [DecidableEq γ] [DecidableEq φ] {u u' : Pending γ φ}
  {upper below : List (Pending γ φ)}

/-- An assertion with another list of pending values than the generator's. -/
def Assertion.pended (P : Assertion γ φ) (us : List (Pending γ φ)) : Assertion γ φ where
  known s := P.known { s with pending := us }
  holds s c := P.holds { s with pending := us } c

/-- A value that is read from a local needs no register. -/
lemma Pending.of_local {k : Nat} (isLocal : u.local? = some k) :
    u.int? = none ∧ u.float? = none ∧ ∀ p : Processor γ φ, u.value p = p.slot (localSlot k) := by
  cases u with
  | slot j | floatSlot j => exact ⟨rfl, rfl, fun _ => Option.some.inj isLocal ▸ rfl⟩
  | _ => cases isLocal

omit [DecidableEq γ] [DecidableEq φ] in
/-- A value that needs no register gives its place to one that is held. -/
lemma Owned.replace {locals : Nat} {ints : RegisterPool γ} {floats : RegisterPool φ}
    {held : List (Pending γ φ)} (noInt : u.int? = none)
    (noFloat : u.float? = none)
    (h : Owned locals ints floats (u' :: (held ++ (upper ++ u :: below)))) :
    Owned locals ints floats (held ++ (upper ++ u' :: below)) := by
  refine Owned.drop (u := u) (h.perm ?_) noInt noFloat
  simp only [← List.append_assoc]
  calc
    u' :: (held ++ upper ++ u :: below)
    _ |>.Perm (u' :: u :: (held ++ upper ++ below)) := List.perm_middle.cons u'
    _ |>.Perm (u :: u' :: (held ++ upper ++ below)) := List.Perm.swap u u' _
    _ |>.Perm (u :: (held ++ upper ++ u' :: below)) := List.perm_middle.symm.cons u

/-- A pending value gives its place to one that is held and has the same word. -/
lemma Execution.Stands.replace {x : Execution γ φ} {held : List (Pending γ φ × Word)} {v : Ideal}
    {s : GenState γ φ} {c : Config γ φ}
    {w : Word}
    (h : (x.Stands ((u', w) :: held) v).holds { s with pending := upper ++ u :: below } c)
    (same : u.value c.proc = w) :
    (x.Stands held v).holds { s with pending := upper ++ u' :: below } c := by
  obtain ⟨pend, under, keys, stack, rep⟩ := h
  obtain ⟨first, later, rfl, rfl, keys'⟩ := List.map_eq_append_iff.1 keys
  obtain ⟨o, later, rfl, rfl, rfl⟩ := List.map_eq_cons_iff.1 keys'
  have word : o.2 = w := by
    rw [← same]
    exact (rep.values o (by simp)).symm
  refine ⟨first ++ (u', w) :: later, under, by simp, by simpa [word] using stack, ?_⟩
  refine { rep with values := fun o' mem => rep.values o' ?_ }
  simp only [List.mem_append, List.mem_cons] at mem ⊢
  tauto

/-- No pending value is read from a local. -/
def GenState.Skips (s : GenState γ φ) (k : Nat) : Prop := ∀ u ∈ s.pending, u.local? ≠ some k

namespace Gen

variable {k : Nat}

omit [DecidableEq γ] [DecidableEq φ] in
/-- After a local is read wherever it is pending, no value is read from it, and the others are read
from where they were read before. -/
lemma readPending_local (us : List (Pending γ φ)) : ∀ {s t us'},
    readPending k us s = .ok us' t → ∀ o ∈ us', ∀ j, o.local? = some j → j ≠ k ∧ ∃ o' ∈ us,
    o'.local? = some j := by
  induction us with
  | nil =>
    intro s t us' run o mem
    cases run
    cases mem
  | cons u below ih =>
    intro s t us' run o mem j reads
    obtain ⟨below', s', run₁, run₂⟩ := bind_eq_ok.1 run
    have head : ∃ u', us' = u' :: below' ∧ ∀ j, u'.local? = some j → j ≠ k ∧ u.local? = some j := by
      cases u with
      | slot i | floatSlot i =>
        by_cases same : i = k
        · simp only [same, if_true] at run₂
          obtain ⟨dst, _, _, run₂⟩ := bind_eq_ok.1 run₂
          cases run₂
          exact ⟨_, rfl, fun _ none => nomatch none⟩
        · simp only [if_neg same] at run₂
          cases run₂
          exact ⟨_, rfl, fun j reads => ⟨Option.some.inj reads ▸ same, reads⟩⟩
      | _ =>
        cases run₂
        exact ⟨_, rfl, fun _ none => nomatch none⟩
    obtain ⟨u', rfl, ofHead⟩ := head
    rcases List.mem_cons.1 mem with rfl | mem
    · exact ⟨(ofHead j reads).1, u, List.mem_cons_self, (ofHead j reads).2⟩
    · obtain ⟨ne, o', mem', reads'⟩ := ih run₁ o mem j reads
      exact ⟨ne, o', List.mem_cons_of_mem _ mem', reads'⟩

omit [DecidableEq γ] [DecidableEq φ] in
/-- Reading a local replaces the pending values. -/
lemma readLocal_eq_ok {s t : GenState γ φ} {a : Unit} (run : readLocal k s = .ok a t) :
    ∃ us s', readPending k s.pending s = .ok us s' ∧ t = { s' with pending := us } := by
  obtain ⟨s₀, _, run₀, run⟩ := bind_eq_ok.1 run
  cases run₀
  obtain ⟨us, s', run₁, run₂⟩ := bind_eq_ok.1 run
  cases run₂
  exact ⟨us, s', run₁, rfl⟩

end Gen

namespace Triple

open Gen Execution
open scoped List

variable {α : Type} {x : Execution γ φ} {E : ExitAssertion γ φ} {closed : Bool}
  {held : List (Pending γ φ × Word)} {v : Ideal} {w value : Word} {rest : List Word}
  {u : Pending γ φ} {P : Assertion γ φ} {g : Gen γ φ α} {Q : α → Assertion γ φ}
  {R : Ideal.Result → Prop} {k : Nat} {upper below : List (Pending γ φ)} {s t : GenState γ φ}
  {a : Unit} {instr : Instruction} {slot first second : Word} {op : Operation γ φ} {keep : Bool}
  {base handle : Lease γ} {width : Width} {disp : Int32}

/-! ### Reading locals that are pending -/

/-- A part that does not look at the pending values can be followed with others in their place. -/
lemma pended (h : Triple x E closed P g Q) (us : List (Pending γ φ))
    (blind : ∀ {s t : GenState γ φ} {a : α}, g s = .ok a t →
      g { s with pending := us } = .ok a { t with pending := us }) :
    Triple x E closed (P.pended us) g fun a => (Q a).pended us where
  adds allowed run :=
    let adds := h.adds allowed run
    ⟨adds.ops, adds.alive, adds.reserve, adds.covered, adds.ip⟩
  knows {s _ _} allowed run alive known := h.knows (s := { s with pending := us }) allowed
    (blind run) alive known
  uses {s t _} allowed run alive known :=
    h.uses (s := { s with pending := us }) (t := { t with pending := us }) allowed
      (blind run) alive known
  runs {s _ _} allowed run alive grows known c at_c holds :=
    h.runs (s := { s with pending := us }) allowed (blind run) alive
      ⟨grows.size_le, grows.keeps, grows.widens⟩ known c at_c holds

lemma readSlot :
    Triple x E closed ((x.Stands held v).pended (upper ++ .slot k :: below)) (do
      let dst ← Gen.acquireInt
      Gen.emit (.loadSlot dst.reg (localSlot k))
      return .reg dst :: below)
      fun us => (x.Stands held v).pended (upper ++ us) := by
  refine (acquireInt.pended _ fun run => by cases run; rfl).bind fun dst => Triple.bind
    (Q := fun _ => (x.Stands held v).pended (upper ++ .reg dst :: below))
    (emit_quiet rfl (fun _ known => Owned.replace rfl rfl known) (fun s c known ⟨_, holds⟩ => ?_)
      fun _ known => Owned.isUsed known
    (List.mem_append_right _ (List.mem_append_right _ (.head _)))) fun _ => done rfl
  exact ⟨_, rfl, Stands.replace (Stands.setInt known holds _ (c.place + 1)) rfl⟩

lemma readFloatSlot :
    Triple x E closed ((x.Stands held v).pended (upper ++ .floatSlot k :: below)) (do
      let dst ← Gen.acquireFloat
      Gen.emit (.loadFloatSlot dst.reg (localSlot k))
      return .floatReg dst :: below)
      fun us => (x.Stands held v).pended (upper ++ us) := by
  refine (acquireFloat.pended _ fun run => by cases run; rfl).bind fun dst => Triple.bind
    (Q := fun _ => (x.Stands held v).pended (upper ++ .floatReg dst :: below))
    (emit_quiet rfl (fun _ known => Owned.replace rfl rfl known) (fun s c known ⟨_, holds⟩ => ?_)
      fun _ known => Owned.isUsed known
    (List.mem_append_right _ (List.mem_append_right _ (.head _)))) fun _ => done rfl
  exact ⟨_, rfl, Stands.replace (Stands.setFloat known holds (toWord_ofWord _) (c.place + 1)) rfl⟩

/-- A local is read wherever it is pending in the lower part of the list. -/
lemma readPending (us : List (Pending γ φ)) : ∀ upper : List (Pending γ φ),
    Triple x E closed ((x.Stands held v).pended (upper ++ us)) (Gen.readPending k us)
      fun us' => (x.Stands held v).pended (upper ++ us') := by
  induction us with
  | nil => exact fun upper => done rfl
  | cons u below ih =>
    intro upper
    have lower := ih (upper ++ [u])
    simp only [List.append_assoc, List.singleton_append] at lower
    refine lower.bind fun below => ?_
    have same : Triple x E closed ((x.Stands held v).pended (upper ++ u :: below))
        (Pure.pure (u :: below)) fun us' => (x.Stands held v).pended (upper ++ us') :=
      done rfl
    cases u with
    | slot i =>
      dsimp only
      split
      · next here =>
        subst here
        exact readSlot
      · exact same
    | floatSlot i =>
      dsimp only
      split
      · next here =>
        subst here
        exact readFloatSlot
      · exact same
    | _ => exact same

/-- A local is read wherever it is pending. -/
lemma readLocal (k : Nat) : Triple x E closed (x.Stands held v) (Gen.readLocal k)
    fun _ => (x.Stands held v).also fun s => s.Skips k := by
  refine ensure (ofGet fun s₀ => Triple.bind (Q := fun us => (x.Stands held v).pended us)
    ((readPending s₀.pending []).pre (fun s known => ?_) fun s c known holds => ?_)
    fun us => still (fun _ run => ?_) (fun run _ known => ?_) fun run _ _ c holds => ?_)
      (fun _ s => s.Skips k) fun {s t a} _ run o mem reads => ?_
  · exact known.1 ▸ known.2
  · exact known.1 ▸ holds
  · cases run
    exact ⟨rfl, .ofSame rfl id (.inl rfl) (fun _ => rfl) rfl⟩
  · cases run
    exact known
  · cases run
    exact holds
  · obtain ⟨us, s', run₁, rfl⟩ := readLocal_eq_ok run
    exact (readPending_local _ run₁ o mem k reads).1 rfl

omit [DecidableEq γ] [DecidableEq φ] in
/-- No value comes to be read from a local by reading another one. -/
lemma readLocal_keeps {j : Nat} (run : Gen.readLocal k s = .ok a t) (skips : s.Skips j) :
    t.Skips j := by
  intro o mem reads
  obtain ⟨us, s', run₁, rfl⟩ := readLocal_eq_ok run
  obtain ⟨-, o', mem', reads'⟩ := readPending_local _ run₁ o mem j reads
  exact skips o' mem' reads'

/-! ### Locals -/

/-- The local an operand names is known, or generation fails. -/
lemma localIndex_bind {f : Nat → Gen γ φ α} (next : 0 ≤ instr.operand → instr.operand ≤ 0xFFFFFFFF →
      Triple x E closed P (f instr.operand.toInt.toNat) Q) :
    Triple x E closed P (Gen.localIndex instr >>= f) Q := by
  by_cases inRange : 0 ≤ instr.operand ∧ instr.operand ≤ 0xFFFFFFFF
  · have known : Gen.localIndex (γ := γ) (φ := φ) instr = Pure.pure instr.operand.toInt.toNat :=
      if_pos inRange
    rw [known, pure_bind]
    exact next inRange.1 inRange.2
  · refine fails fun s a t run => ?_
    obtain ⟨index, s', run₁, -⟩ := bind_eq_ok.1 run
    have unknown : Gen.localIndex (γ := γ) (φ := φ) instr =
        (do throw (.unsupported instr.text (← get).ip)) := if_neg inRange
    rw [unknown] at run₁
    cases run₁

/-- A value is held first, and no other is read from a local. -/
def Unread (x : Execution γ φ) (k : Nat) (o : Pending γ φ × Word)
    (held : List (Pending γ φ × Word)) (v : Ideal) : Assertion γ φ :=
  (x.Stands (o :: held) v).also fun s => s.Skips k ∧ ∀ u ∈ held, u.1.local? ≠ some k

section

variable (bound : slot.toInt.toNat < x.locals)
include bound

/-- A local that is pending unread has the word of the local. -/
lemma getLocal_eq {c : Config γ φ} (holds : (x.Stands held v).holds s c) :
    v.getLocal slot = c.proc.slot (localSlot slot.toInt.toNat) := by
  obtain ⟨pend, below, keys, stack, rep⟩ := holds
  exact rep.frame.getD_mem _ bound

/-- A local is loaded without being read yet. -/
lemma pushLocal (isLocal : u.local? = some slot.toInt.toNat) :
    Triple x E closed (x.Stands held v) (Gen.pushPending u)
    fun _ => x.Stands held (v.push (v.getLocal slot)) := by
  obtain ⟨noInt, noFloat, isSlot⟩ := Pending.of_local isLocal
  refine pushPending.pre (fun s known => Owned.add known noInt noFloat fun k same => ?_)
    fun s c _ holds => Stands.add holds ?_
  · exact Option.some.inj (isLocal.symm.trans same) ▸ bound
  · rw [isSlot, getLocal_eq bound holds]

/-- An operation writes a value that is held to a local that no value is read from. -/
lemma emitStoreSlot (proper : op.isProper)
    (performs : ∀ p s, x.perform op p s = .ok (p.setSlot (localSlot slot.toInt.toNat) (u.value p),
      .next) s) (unread : u.local? ≠ some slot.toInt.toNat)
    (named : op.slots = localSlot slot.toInt.toNat :: (srcOf u).slots) :
    Triple x E closed (Unread x slot.toInt.toNat (u, w) held v) (Gen.emit op)
      fun _ => x.Stands ((u, w) :: held) (v.setLocal slot w) := by
  refine emit_quiet proper (fun _ known => known.2) (fun s c known holds => ?_) fun s known =>
    named ▸ List.forall_mem_cons.2 ⟨isUsed_localSlot bound, Owned.isUsed known.2 (.head _)⟩
  have value := Stands.value holds
  obtain ⟨pend, below, keys, stack, rep⟩ := holds
  refine ⟨_, performs c.proc c.state, pend, below, keys, stack, ?_⟩
  rw [value]
  refine rep.setLocal bound (fun o mem => ?_) w
  rcases List.mem_append.1 mem with mem | mem
  · rcases List.mem_cons.1 mem with rfl | mem
    · exact unread
    · exact known.1.2 o mem
  · exact known.1.1 o.1 (keys ▸ List.mem_map_of_mem mem)

/-- A local that is read from itself stays as it is. -/
lemma storeItself (isLocal : ∀ p : Processor γ φ, u.value p = p.slot (localSlot slot.toInt.toNat)) :
    Triple x E closed (Unread x slot.toInt.toNat (u, w) held v) (Pure.pure ())
      fun _ => x.Stands ((u, w) :: held) (v.setLocal slot w) := by
  refine pure (fun _ known => known.2) fun s c _ holds => ?_
  rw [Ideal.setLocal_self]
  · exact holds
  · rw [getLocal_eq bound holds, ← isLocal]
    exact Stands.value holds

/-- A value that is held is written to a local that nothing pending is read from. -/
lemma writeLocal :
    Triple x E closed (Unread x slot.toInt.toNat (u, w) held v)
      (Gen.writeLocal slot.toInt.toNat u) fun _ => x.Stands ((u, w) :: held)
      (v.setLocal slot w) := by
  have emitted (k : Nat) (isLocal : u.local? = some k) (noFloat : u.float? = none)
      (isSlot : ∀ p : Processor γ φ, u.value p = p.slot (localSlot k)) :
      Triple x E closed (Unread x slot.toInt.toNat (u, w) held v)
          (if k = slot.toInt.toNat then Pure.pure ()
        else Gen.emit (.storeSlot (localSlot slot.toInt.toNat) (srcOf u)))
        fun _ => x.Stands ((u, w) :: held) (v.setLocal slot w) := by
    split
    · next same => exact storeItself bound (same ▸ isSlot)
    · next other =>
      refine emitStoreSlot bound rfl (fun p s => ?_)
        (fun same => other (Option.some.inj (isLocal.symm.trans same))) rfl
      rw [← src_srcOf p noFloat]
      rfl
  cases u with
  | slot k | floatSlot k => exact emitted k rfl rfl fun _ => rfl
  | _ => exact emitStoreSlot bound rfl (fun _ _ => rfl) nofun rfl

end

/-- A stored value stays pending if it is kept. -/
lemma keepOrDiscard (result : R (.next (if keep then v.push w else v))) :
    Triple x E closed (x.Stands [(u, w)] v) (Gen.keepOrDiscard keep u) fun _ => x.Next R := by
  cases keep with
  | true => exact pushNext result
  | false => exact discard.toNext result

/-- A value that is to be kept is brought where a store does not change it. -/
lemma pinKept {f : Pending γ φ → Gen γ φ α}
    (next : ∀ u, Triple x E closed (x.Stands ((u, w) :: held) v) (f u) Q) :
    Triple x E closed (x.Stands ((u, w) :: held) v)
    (if keep then Gen.pin u >>= f else Pure.pure u >>= f) Q := by
  cases keep with
  | true => exact pin.bind fun u => (next u).forget
  | false => exact next u

lemma storeLocal (reach : 0 ≤ instr.operand → instr.operand.toInt.toNat < x.locals)
    (stack : v.stack = w :: rest)
    (result : R (.next (Ideal.setLocal (if keep then v else v.withStack rest) instr.operand w))) :
    Triple x E closed (x.Stands [] v) (Gen.storeLocal instr keep) fun _ => x.Next R := by
  refine localIndex_bind fun nonneg _ => (pop stack).bind fun u => pinKept fun u =>
    (readLocal _).bind fun _ => Triple.bind ((writeLocal (reach nonneg)).pre
      (fun _ known => ⟨⟨known.1, List.forall_mem_nil _⟩, known.2⟩) fun _ _ _ => id) fun _ =>
        keepOrDiscard ?_
  cases keep with
  | true =>
    have pushed : ((v.withStack rest).setLocal instr.operand w).push w = v.setLocal instr.operand
      w := by
      simp only [Ideal.push, Ideal.setLocal, Ideal.withStack, stack]
    rw [if_pos rfl, pushed]
    exact result
  | false => exact result

/-- Both words of a local function value are loaded. -/
lemma loadPairLocal (reach : 0 ≤ instr.operand → instr.operand.toInt.toNat + 1 < x.locals)
    (result : R (.next ((v.push (v.getLocal (instr.operand + 1))).push
      (v.getLocal instr.operand)))) :
    Triple x E closed (x.Stands [] v) (Gen.loadPairLocal instr) fun _ => x.Next R := by
  refine localIndex_bind fun nonneg small => ?_
  have index := Word.toNat_succ nonneg small
  have bound := reach nonneg
  rw [← index]
  exact (pushLocal (index ▸ bound) rfl).bind fun _ =>
    (pushLocal (Nat.lt_of_succ_lt bound) rfl).toNext result

/-- Two values are held that are not read from a local. -/
def Pinned (x : Execution γ φ) (a b : Pending γ φ × Word) (v : Ideal) : Assertion γ φ :=
  (x.Stands [a, b] v).also fun _ => a.1.local? = none ∧ b.1.local? = none

/-- Two values are taken that a store to a local does not change. -/
lemma popPinned {f : Pending γ φ → Pending γ φ → Gen γ φ α}
    (stack : v.stack = first :: second :: rest)
    (next : ∀ a b, Triple x E closed (Pinned x (a, first) (b, second) (v.withStack rest))
      (f a b) Q) :
    Triple x E closed (x.Stands [] v) (do
      let a ← Gen.pin (← Gen.pop)
      let b ← Gen.pin (← Gen.pop)
      f a b) Q := by
  refine (pop stack).bind fun _ => pin.bind fun a =>
    ((pop rfl).frame (fun _ => a.local? = none) fun _ => id).bind fun _ =>
      (pin.frame (fun _ => a.local? = none) fun _ => id).bind fun b => (next a b).pre ?_ ?_
  · exact fun _ known => ⟨⟨known.1, known.2.1⟩, Owned.perm known.2.2 (.swap _ _ _)⟩
  · exact fun _ _ _ holds => Stands.perm holds (.swap _ _ _)

omit [DecidableEq γ] [DecidableEq φ] in
/-- Writing a local leaves the pending values alone. -/
lemma writeLocal_pending (run : Gen.writeLocal k u s = .ok a t) : t.pending = s.pending := by
  cases u with
  | slot i | floatSlot i =>
    simp only [Gen.writeLocal] at run
    split at run <;> cases run <;> rfl
  | _ =>
    cases run
    rfl

/-- Two values are written to locals that nothing pending is read from. -/
lemma writePair {a b : Pending γ φ} {slot' : Word}
    (bound : slot.toInt.toNat < x.locals) (bound' : slot'.toInt.toNat < x.locals) :
    Triple x E closed ((Pinned x (a, first) (b, second) v).also fun s =>
        s.Skips slot.toInt.toNat ∧ s.Skips slot'.toInt.toNat)
      (Gen.writeLocal slot.toInt.toNat a >>= fun _ => Gen.writeLocal slot'.toInt.toNat b)
      fun _ => x.Stands [(b, second), (a, first)]
        ((v.setLocal slot first).setLocal slot' second) := by
  refine Triple.bind (Q :=
      fun _ => (x.Stands [(a, first), (b, second)] (v.setLocal slot first)).also
        fun s => s.Skips slot'.toInt.toNat ∧ a.local? = none)
    (((writeLocal bound).frame (fun s => s.Skips slot'.toInt.toNat ∧ a.local? = none)
      fun run known => ?_).pre (fun _ known => ?_) fun _ _ _ => id)
    fun _ => (writeLocal bound').pre (fun _ known => ?_) fun _ _ _ holds => ?_
  · exact ⟨fun u mem => known.1 u (writeLocal_pending run ▸ mem), known.2⟩
  · obtain ⟨skips, pinned, owned⟩ := known
    exact ⟨⟨skips.2, pinned.1⟩, ⟨skips.1, by simp [pinned.2]⟩, owned⟩
  · exact ⟨⟨known.1.1, by simp [known.1.2]⟩, Owned.perm known.2 (.swap _ _ _)⟩
  · exact Stands.perm holds (.swap _ _ _)

/-- Both words of a local function value are stored. -/
lemma storePairLocal (reach : 0 ≤ instr.operand → instr.operand.toInt.toNat + 1 < x.locals)
    (stack : v.stack = first :: second :: rest)
    (result : R (.next (((v.withStack rest).setLocal instr.operand first).setLocal
      (instr.operand + 1) second))) :
    Triple x E closed (x.Stands [] v) (Gen.storePairLocal instr) fun _ => x.Next R := by
  refine localIndex_bind fun nonneg small => ?_
  have index := Word.toNat_succ nonneg small
  have bound := reach nonneg
  rw [← index]
  refine popPinned stack fun a b => ?_
  let pinned : Prop := a.local? = none ∧ b.local? = none
  refine ((readLocal _).frame (fun _ => pinned) fun _ => id).bind fun _ => ?_
  refine Triple.bind (Q := fun _ => (Pinned x (a, first) (b, second) (v.withStack rest)).also
    fun s =>
      s.Skips instr.operand.toInt.toNat ∧ s.Skips (instr.operand + 1).toInt.toNat)
    (((readLocal _).frame (fun s => s.Skips instr.operand.toInt.toNat ∧ pinned)
      fun run known => ⟨readLocal_keeps run known.1, known.2⟩).mono
        (fun _ known => ⟨⟨known.2.1, known.1⟩, known.2.2⟩) (fun _ _ _ => id)
        (fun _ _ known => ⟨⟨known.1.1, known.2.1⟩, known.1.2, known.2.2⟩) fun _ _ _ _ => id)
    fun _ => ?_
  rw [← bind_assoc]
  exact (writePair (Nat.lt_of_succ_lt bound) (index ▸ bound)).bind fun _ =>
    discard.swapHeld.bind fun _ => discard.toNext result

/-! ### Memory -/

/-- A register that is held is replaced by what it points to. -/
lemma loadThrough :
    Triple x E closed (x.Stands ((.reg base, w) :: held) v)
    (Gen.emit (.load width base.reg base.reg disp)) fun _ =>
        x.Stands ((.reg base, v.machine.heap.read (w + disp.toInt64) width) :: held) v := by
  refine emitInt rfl (fun _ => id) (fun s c _ holds => ⟨⟨_, holds⟩, ?_⟩) uses_nil
  have pointer : c.proc.int base.reg = w := Stands.value holds
  rw [← pointer, ← Stands.machine_eq holds]
  rfl

/-- A word that a register points to is read into another one. -/
lemma loadFrom {dst : Lease γ} : Triple x E closed (x.Holding (.reg dst) ((.reg base, w) :: held) v)
      (Gen.emit (.load .word dst.reg base.reg disp)) fun _ =>
        x.Stands ((.reg dst, v.fetch (w + disp.toInt64)) :: (.reg base, w) :: held) v := by
  refine emitInt rfl (fun _ => id) (fun s c _ ⟨w', holds⟩ => ⟨⟨w', holds⟩, ?_⟩) uses_nil
  have pointer : c.proc.int base.reg = w := Stands.value (Stands.drop holds)
  rw [← pointer, Ideal.fetch, ← Stands.machine_eq holds]
  rfl

/-- A double that a register points to is read into a float register. -/
lemma loadFloatFrom {dst : Lease φ} :
    Triple x E closed (x.Holding (.floatReg dst) ((.reg base, w) :: held) v)
      (Gen.emit (.loadFloat dst.reg base.reg disp)) fun _ =>
        x.Stands ((.floatReg dst, v.fetch (w + disp.toInt64)) :: (.reg base, w) :: held) v := by
  refine emitFloat rfl (fun _ => id) (fun s c _ ⟨w', holds⟩ => ⟨⟨w', holds⟩, ?_⟩)
    (toWord_ofWord _) uses_nil
  have pointer : c.proc.int base.reg = w := Stands.value (Stands.drop holds)
  rw [← pointer, Ideal.fetch, ← Stands.machine_eq holds]
  rfl

/-- An operation writes a value to memory, where no reservation is open. -/
lemma emitStore (proper : op.isProper)
    (performs : ∀ p s, x.perform op p s = .ok (p, .next) { s with machine := { s.machine with
      heap := s.machine.heap.write (p.pointer base.reg disp) width (u.value p) } })
    (named : op.slots = (srcOf u).slots) :
    Triple x E true (x.Stands ((u, value) :: (.reg base, w) :: held) v) (Gen.emit op) fun _ =>
      x.Stands ((u, value) :: (.reg base, w) :: held)
        (v.modifyHeap fun h => h.write (w + disp.toInt64) width value) := by
  refine emit_effect proper (fun _ => id) (fun s c _ _ holds => ⟨_, performs _ _, ?_⟩)
    fun _ known =>
    named ▸ Owned.isUsed known (.head _)
  have pointer : c.proc.int base.reg = w := Stands.value (Stands.drop holds)
  rw [Processor.pointer, Stands.value holds, pointer]
  obtain ⟨pend, below, keys, stack, rep⟩ := holds
  exact ⟨pend, below, keys, stack, rep.modifyHeap fun h => h.write (w + disp.toInt64) width value⟩

lemma writeWord :
    Triple x E true (x.Stands ((u, value) :: (.reg base, w) :: held) v)
    (Gen.writeMemory base.reg disp .word u) fun _ =>
        x.Stands ((u, value) :: (.reg base, w) :: held) (v.assign (w + disp.toInt64) value) := by
  cases u <;> exact emitStore rfl (fun _ _ => rfl) rfl

lemma storeThrough (stack : v.stack = value :: rest)
    (result : R (.next (Ideal.assign (if keep then v else v.withStack rest)
      (w + (fieldDisp slot 0).toInt64) value))) :
    Triple x E true (x.Stands [(.reg handle, w)] v) (do
      let u ← Gen.pop
      let u ← if keep then Gen.pin u else Pure.pure u
      Gen.writeMemory handle.reg (fieldDisp slot 0) .word u
      Gen.releaseInt handle
      Gen.keepOrDiscard keep u) fun _ => x.Next R := by
  refine (pop stack).bind fun u => pinKept fun u => writeWord.bind fun _ =>
    releaseInt.swapHeld.bind fun _ => keepOrDiscard ?_
  cases keep with
  | true =>
    have pushed : ((v.withStack rest).assign (w + (fieldDisp slot 0).toInt64) value).push value =
        v.assign (w + (fieldDisp slot 0).toInt64) value := by
      simp only [Ideal.push, Ideal.assign, Ideal.modifyHeap, Ideal.withStack, stack]
    rw [if_pos rfl, pushed]
    exact result
  | false => exact result

/-- Both words of a function value are stored through a handle. -/
lemma storePairThrough (stack : v.stack = first :: second :: rest)
    (result : R (.next (((v.withStack rest).assign (w + (fieldDisp slot 0).toInt64) first).assign
      (w + (fieldDisp slot 1).toInt64) second))) :
    Triple x E true (x.Stands [(.reg handle, w)] v) (do
      let a ← Gen.pop
      let b ← Gen.pop
      Gen.writeMemory handle.reg (fieldDisp slot 0) .word a
      Gen.writeMemory handle.reg (fieldDisp slot 1) .word b
      Gen.discard a
      Gen.discard b
      Gen.releaseInt handle) fun _ => x.Next R := by
  refine (pop stack).bind fun a => (pop rfl).bind fun b => ?_
  let held₁ := (a, first)
  let held₂ := (b, second)
  let heldBase := (Pending.reg (φ := φ) handle, w)
  refine (writeWord.reorder (List.perm_append_comm : [held₂] ++ [held₁, heldBase] ~ _)).bind
    fun _ => (writeWord.reorder (List.reverse_perm [held₂, heldBase, held₁])).bind fun _ =>
      (discard.reorder (List.perm_append_comm : [held₂, heldBase] ++ [held₁] ~ _)).bind fun _ =>
        discard.bind fun _ => releaseInt.toNext result

section

variable (stack : v.stack = w :: rest)
  (fails : w = 0 → R ((v.withStack rest).fails .nilDereference))
include stack fails

lemma loadField {kind : ValueKind}
    (result : w ≠ 0 → R (.next
      ((v.withStack rest).push (v.fetch (w + (fieldDisp slot 0).toInt64))))) :
    Triple x (x.Exits R) closed (x.Stands [] v) (Gen.loadField slot kind) fun _ => x.Next R := by
  refine (popHandle stack fails).bind fun handle => assuming ?_
  cases kind with
  | float =>
    exact acquireFloat.bind fun dst => loadFloatFrom.bind fun _ => releaseInt.swapHeld.bind
      fun _ => pushNext result
  | int => exact loadThrough.bind fun _ => pushNext result

/-- Both words of a function value are loaded from memory. -/
lemma loadPairField
    (result : w ≠ 0 → R (.next
      (((v.withStack rest).push (v.fetch (w + (fieldDisp slot 1).toInt64))).push
      (v.fetch (w + (fieldDisp slot 0).toInt64))))) :
    Triple x (x.Exits R) closed (x.Stands [] v) (Gen.loadPairField slot) fun _ => x.Next R :=
  (popHandle stack fails).bind fun _ => assuming <| acquireInt.bind fun _ => loadFrom.bind fun _ =>
    loadThrough.swapHeld.bind fun _ => pushPending.swapHeld.bind fun _ => pushNext result

lemma storeField
    (stores : w ≠ 0 → ∃ value below, rest = value :: below ∧
      R (.next (Ideal.assign (v.withStack (if keep then rest else below))
      (w + (fieldDisp slot 0).toInt64) value))) :
    Triple x (x.Exits R) true (x.Stands [] v) (Gen.storeField slot keep) fun _ => x.Next R := by
  refine (popHandle stack fails).bind fun handle => supposing (fun nonnil => ?_)
    (storeThrough (R := fun _ => True) (E := fun _ _ _ => True) (v := v.withStack [0]) (w := w) rfl
      trivial) (fun _ => id) fun _ _ => id
  obtain ⟨value, below, rfl, result⟩ := stores nonnil
  refine storeThrough rfl ?_
  cases keep with
  | true | false => exact result

/-- Both words of a function value are stored to memory. -/
lemma storePairField
    (stores : w ≠ 0 → ∃ first second below, rest = first :: second :: below ∧
      R (.next (((v.withStack below).assign (w + (fieldDisp slot 0).toInt64) first).assign
      (w + (fieldDisp slot 1).toInt64) second))) :
    Triple x (x.Exits R) true (x.Stands [] v) (Gen.storePairField slot) fun _ => x.Next R := by
  refine (popHandle stack fails).bind fun handle => supposing (fun nonnil => ?_)
    (storePairThrough (R := fun _ => True) (E := fun _ _ _ => True) (v := v.withStack [0, 0])
      (w := w) rfl trivial) (fun _ => id) fun _ _ => id
  obtain ⟨first, second, below, rfl, result⟩ := stores nonnil
  exact storePairThrough rfl result

end

lemma loadArg {arg : FrameSlot}
    (argument : ∀ p, x.FrameHolds v.mem v.machine p → p.slot arg.index = value)
    (result : R (.next (v.push value))) (used : IsUsed x.locals arg.index) :
    Triple x E closed (x.Stands [] v) (Gen.loadArg arg) fun _ => x.Next R := by
  refine acquireInt.bind fun dst => Triple.bind (Q := fun _ => x.Stands [(.reg dst, value)] v)
    (emitInt rfl (fun _ => id) (fun s c _ ⟨w, holds⟩ => ⟨⟨w, holds⟩, ?_⟩)
      fun _ _ => List.forall_mem_singleton.2 used)
    fun _ => pushNext result
  obtain ⟨pend, below, keys, stack, rep⟩ := holds
  rw [← argument c.proc rep.frame]
  rfl

end Triple

end Native

end StackMachine
