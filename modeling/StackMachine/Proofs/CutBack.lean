import StackMachine.Bytecode.Builder
import StackMachine.Proofs.CallEffects

/-!
# The operand stack after a failed call

A call that fails cuts the operand stack back to what is below its arguments.  Whether those words
are still the ones that were there before depends on what the call has done in between.  An operand
stack remembers the fewest words it has held since it was marked, and the words below that have not
changed: this holds across every step of either engine, at any nesting of calls
(`Call.keeps_invokeWith`).

So if the stack never held fewer words than there are below the arguments, the failed call gives
them all back (`Call.restores_of_invokeWith`).  It is not enough that nothing was popped from below
them: an inner call that fails cuts off its own arguments, and may be declared to take more of them
than its caller has (`Call.loses_words_of_inner_call`).
-/

namespace StackMachine

namespace OperandStack

/-- The stack with its history forgotten: from now on it remembers the fewest words it holds. -/
def mark (s : OperandStack) : OperandStack := { s with low := s.size }

/-- From one stack to a later one: the words below the fewest that it has held are the same. -/
structure Keeps (s t : OperandStack) : Prop where
  low_le : t.low ≤ s.low
  low_le_size : s.low ≤ s.size → t.low ≤ t.size
  capacity_eq : t.capacity = s.capacity
  words_eq : s.low ≤ s.size → ∀ i < t.low, t.words[i]? = s.words[i]?

namespace Keeps

variable {s t u : OperandStack} {w : Word}

lemma refl (s : OperandStack) : s.Keeps s := ⟨Nat.le_refl _, id, rfl, fun _ _ _ => rfl⟩

lemma trans (first : s.Keeps t) (second : t.Keeps u) : s.Keeps u where
  low_le := Nat.le_trans second.low_le first.low_le
  low_le_size low := second.low_le_size (first.low_le_size low)
  capacity_eq := second.capacity_eq.trans first.capacity_eq
  words_eq low i below :=
    (second.words_eq (first.low_le_size low) i below).trans
      (first.words_eq low i (Nat.lt_of_lt_of_le below second.low_le))

lemma setCursor (s : OperandStack) (cursor : Word) : s.Keeps (s.setCursor cursor) where
  low_le := Nat.min_le_left _ _
  low_le_size _ := Nat.min_le_right _ _
  capacity_eq := rfl
  words_eq _ _ _ := rfl

lemma write (s : OperandStack) (w : Word) :
    s.Keeps { s with words := s.words.setIfInBounds s.size w } where
  low_le := Nat.le_refl _
  low_le_size := id
  capacity_eq := rfl
  words_eq low i (below : i < s.low) := Array.getElem?_setIfInBounds_ne (by omega)

lemma push (pushed : s.push w = .ok t) : s.Keeps t := by
  unfold OperandStack.push at pushed
  split at pushed
  · cases pushed
  · cases pushed
    exact (write s w).trans (setCursor _ _)

lemma pop (popped : s.pop = .ok (w, t)) : s.Keeps t := by
  unfold OperandStack.pop at popped
  split at popped
  · cases popped
  · cases popped
    exact setCursor _ _

lemma truncate (s : OperandStack) (size : Nat) : s.Keeps (s.truncate size) := by
  unfold OperandStack.truncate
  split
  · exact setCursor _ _
  · exact refl s

lemma pushUnchecked (s : OperandStack) (w : Word) :
    s.Keeps (s.pushUnchecked w) := (write s w).trans (setCursor _ _)

lemma dropUnchecked (s : OperandStack) : s.Keeps s.dropUnchecked := setCursor _ _

end Keeps

/-- A stack that is cut back holds no more words than it is cut back to. -/
lemma size_truncate_le (s : OperandStack) (size : Nat) : (s.truncate size).size ≤ size := by
  unfold truncate
  split
  · next above =>
    have small : size < 2 ^ 63 := by
      have bound := s.cursor.toInt_lt
      unfold OperandStack.size at above
      omega
    have same : (Word.ofNat size).toInt.toNat = size := by
      rw [Word.toInt_ofNat small, Int.toNat_natCast]
    exact Nat.le_of_eq same
  · next within => exact Nat.not_lt.1 within

/-- A stack that has been cut back to words it never held fewer of holds these words. -/
lemma Keeps.toList_eq {s t : OperandStack} {size : Nat} (keeps : s.Keeps t) (low : s.low ≤ s.size)
    (within : size ≤ s.size) (cut : t.size ≤ size) (never : size ≤ t.low) :
    t.toList = s.toList.take size := by
  have sizes : t.size = size := by
    have := keeps.low_le_size low
    omega
  have same : t.words.toList.take size = s.words.toList.take size := by
    refine List.ext_getElem? fun i => ?_
    simp only [List.getElem?_take, Array.getElem?_toList]
    split
    · next below => exact keeps.words_eq low i (Nat.lt_of_lt_of_le below never)
    · rfl
  calc
    t.toList = (t.words.toList.take size).take s.capacity := by
      rw [toList, sizes, keeps.capacity_eq, List.take_take, Nat.min_comm]
    _ = (s.words.toList.take size).take s.capacity := by rw [same]
    _ = s.toList.take size := by
      rw [toList, List.take_take, List.take_take]
      congr 1
      omega

end OperandStack

/-! ### Along a call -/

/-- From one state to a later one the operand stack keeps its words. -/
abbrev State.Keeps (s t : State) : Prop := s.context.stack.Keeps t.context.stack

namespace Exec

variable {α : Type}

/-- A computation that leaves the operand stack alone keeps its words. -/
lemma keeps_of_leaves {m : Exec α} (leaves : Leaves (fun s => s.context.stack) m) :
    Does State.Keeps m := by
  refine leaves.does.mono fun {s t} same => ?_
  rw [State.Keeps, same]
  exact .refl _

/-- So does one that changes the operand stack in a way that keeps its words. -/
lemma keeps_modifyStack {f : OperandStack → OperandStack}
    (keeps : ∀ s : OperandStack, s.Keeps (f s)) :
    Does State.Keeps (modifyStack f) := by
  refine fun s => ⟨fun a t run => ?_, fun e t run => ?_⟩
  · cases run
    exact keeps _
  · cases run

lemma leaves_stack_modifyFrame (f : Frame → Frame) :
    Leaves (fun s => s.context.stack) (modifyFrame f) := by
  refine .modify fun s => ?_
  obtain ⟨machine, halt, callPos, stack, frames, pending⟩ := s
  cases frames <;> rfl

/-- Every step of an engine keeps the words of the operand stack. -/
lemma keeps_basis : EngineBasis State.Keeps (Always State.Keeps) where
  trans := OperandStack.Keeps.trans
  stops _ keeps _ := keeps
  later first last ne := first.trans (last ne)
  machine _ _ _ := .refl _
  pop := by
    intro s
    unfold Exec.pop
    cases popped : s.context.stack.pop with
    | ok r => exact ends_ok rfl (.pop popped)
    | error cause => exact ends_error rfl fun _ => .refl _
  push w := by
    intro s
    unfold Exec.push
    cases pushed : s.context.stack.push w with
    | ok stack => exact ends_ok rfl (.push pushed)
    | error cause => exact ends_error rfl fun _ => .refl _
  frame f _ := keeps_of_leaves (leaves_stack_modifyFrame f)
  pushWord w := keeps_modifyStack fun s => .pushUnchecked s w
  dropWord := keeps_modifyStack .dropUnchecked

end Exec

namespace Call

open Exec

variable {choose : Choice}

/-- Every step of a call keeps the words of the operand stack, whatever happens in it. -/
lemma keeps_callBasis (apart : choose.Apart) :
    CallBasis choose (fun s _ t => s.Keeps t) fun _ _ => True where
  engine := keeps_basis
  append := .trans
  begins _ := trivial
  follows _ _ := trivial
  chooses {method site s body? t} chosen :=
    (keeps_of_leaves ((apart method site).map Context.stack) s).1 body? t chosen
  refuses {method site s e t} refused :=
    (keeps_of_leaves ((apart method site).map Context.stack) s).2 e t refused
  enter _ _ _ := .refl _
  spoil _ _ := .refl _
  breaks _ := .refl _
  leave s := by
    unfold State.returned
    split <;> exact .refl _
  park _ _ := .refl _
  released _ := .refl _
  truncate s floor := .truncate s.context.stack floor
  thread _ _ _ _ := .refl _
  threadSeen _ _ _ := trivial

/-- A call keeps the words of the operand stack, whichever engines run it and the calls in it. -/
theorem keeps_invokeWith (apart : choose.Apart) (fuel : Nat) :
    ∀ method receiver site, Does State.Keeps (invokeWith choose fuel method receiver site) := by
  intro method receiver site s
  obtain ⟨answers, stops⟩ := logs_invokeWith (keeps_callBasis apart) fuel method receiver site s
  refine ⟨answers, fun e t run ne => ?_⟩
  have keeps := stops e t run
  cases e with
  | fault f | panic => exact keeps
  | stuck => exact absurd rfl ne

/-! ### A failed call -/

section Failed

variable {choose : Choice} {fuel : Nat} {method : Method} {receiver : Word} {site : Bool}
  {s t : State} {f : Fault}

/-- A call that fails, though it was not refused and found its engine, leaves no more words on the
operand stack than there were below its arguments.  If the stack, marked before the call, never held
fewer, it holds just these words. -/
theorem restores_of_invokeWith (apart : choose.Apart) (running : s.machine.halted = false)
    (chosen : ∀ e u, choose method site s ≠ .error e u)
    (fails : invokeWith choose fuel method receiver site s = .error (.fault f) t) :
    t.context.stack.size ≤ s.context.stack.size - method.params ∧
    (s.context.stack = s.context.stack.mark →
        s.context.stack.size - method.params ≤ t.context.stack.low → t.context.stack.toList =
            s.context.stack.toList.take (s.context.stack.size - method.params)) := by
  have keeps : s.Keeps t := (keeps_invokeWith apart fuel method receiver site s).2 _ _ fails nofun
  have cut : t.context.stack.size ≤ s.context.stack.size - method.params := by
    cases fuel with
    | zero => cases fails
    | succ fuel =>
      cases choice : choose method site s with
      | error e u => exact absurd choice (chosen e u)
      | ok body? u =>
        rw [invokeWith_eq running choice] at fails
        obtain ⟨v, -, rfl⟩ := restoring_eq_fault fails
        exact OperandStack.size_truncate_le _ _
  refine ⟨cut, fun marked never => keeps.toList_eq ?_ (Nat.sub_le _ _) cut never⟩
  rw [marked]
  exact Nat.le_refl _

end Failed

namespace Dividing

/-- A method that passes two words to a second one, which divides by zero; and one that has none to
pass. -/
def program : Program := .ofClasses [{
  name := "Main"
  methods := #[
    { name := "outer", params := 1,
      code := #[Build.int 5, Build.int 6, Build.int 0, Build.call 0 1] },
    { name := "inner", params := 2, code := #[Build.int 1, Build.int 0, Build.op .divInt] },
    { name := "greedy", params := 0, code := #[Build.int 0, Build.call 0 1] }] }]

/-- The methods of the program. -/
def method (index : Nat) : Method := (program.method? 0 index).getD { name := "", code := #[] }

/-- A thread that interprets everything, with words on its operand stack, which is marked. -/
def state (words : List Word) : State where
  machine := {
    program, settings := { jitMode := .off }, heap := {}, statics := #[], records := #[], seed := 1
    clock := 0 }
  context := { stack := (words.foldl OperandStack.pushUnchecked (.empty 8)).mark }

/-- The words on the operand stack after a fault, and the fewest it has held. -/
def left : EStateM.Result Stop State Unit → Option (List Word × Nat)
  | .error (.fault _) t => some (t.context.stack.toList, t.context.stack.low)
  | _ => none

/-- A call that is known to have left words has failed. -/
lemma exists_of_left {r : EStateM.Result Stop State Unit} {words : List Word} {low : Nat}
    (known : left r = some (words, low)) : ∃ f t, r = .error (.fault f) t ∧
      t.context.stack.toList = words ∧ t.context.stack.low = low := by
  unfold left at known
  split at known
  · next f t =>
    cases known
    exact ⟨f, t, rfl, rfl, rfl⟩
  · cases known

end Dividing

open Dividing in
/-- The inner call fails and takes off its two arguments, the outer one fails and takes off its own:
the two words below are given back. -/
theorem restores_of_invokeWith_dividing : ∃ f t,
    invokeWith nativeBody 20 (Dividing.method 0) 0 false (state [11, 22, 7]) = .error (.fault f) t ∧
      t.context.stack.size ≤ 2 ∧ t.context.stack.toList = [11, 22] := by
  have known : left (invokeWith nativeBody 20 (Dividing.method 0) 0 false (state [11, 22, 7])) =
      some ([11, 22], 2) := by decide +kernel
  obtain ⟨f, t, fails, -, low⟩ := exists_of_left known
  have interpreted : nativeBody (Dividing.method 0) false (state [11, 22, 7]) = .ok none
    (state [11, 22, 7]) := rfl
  have chooses : ∀ e u, nativeBody (Dividing.method 0) false (state [11, 22, 7]) ≠ .error e u := by
    intro e u fails
    cases interpreted.symm.trans fails
  obtain ⟨size, gives⟩ := restores_of_invokeWith apart_nativeBody rfl chooses fails
  exact ⟨f, t, fails, size, gives rfl (Nat.le_of_eq low.symm)⟩

open Dividing in
/-- A method that takes no arguments calls one that takes two, and has pushed none for it.  Nothing
is popped from below what it found, but the inner call fails and cuts off both words. -/
theorem loses_words_of_inner_call : (Dividing.method 2).params = 0 ∧
    (state [11, 22]).context.stack.toList = [11, 22] ∧
    left (invoke 20 (Dividing.method 2) 0 false (state [11, 22])) = some ([], 0) := by
  refine ⟨rfl, rfl, ?_⟩
  decide +kernel

end Call

end StackMachine
