import StackMachine.Native.Generator
import StackMachine.Proofs.Ideal

/-!
# Runs of compiled code

A run of a compiled method is cut into stretches.  Within a stretch control passes from each
operation to the next (`Execution.Steps`); a stretch may end with a jump (`Execution.Departs`).
How much fuel a run needs is counted exactly, so that a run that finishes can be followed back.
-/

namespace StackMachine.Native

variable {γ φ : Type} [DecidableEq γ] [DecidableEq φ]

/-- A compiled method in execution: the place of its next operation, the processor and the state. -/
structure Config (γ φ : Type) where
  place : Nat
  proc : Processor γ φ
  state : State

/-- What stays the same while a compiled method runs: the method and the meaning of its runtime
calls, the runtime, the entry arguments, the generator at its end, the capacity of the operand
stack, and the frames of the callers. -/
structure Execution (γ φ : Type) where
  scope : Scope
  answer : Answer
  call : Callback
  entry : Entry
  last : GenState γ φ
  capacity : Nat
  outer : List Frame

namespace Execution

variable {op : Operation γ φ} {place : Nat}

/-- The operations of the method. -/
def ops (x : Execution γ φ) : Array (Operation γ φ) := x.last.ops

def places (x : Execution γ φ) : List (JumpTarget × Nat) := Native.places x.ops.toList

/-- The number of its locals. -/
def locals (x : Execution γ φ) : Nat := x.scope.method.localWords

/-- Runs the method from a configuration on. -/
def run (x : Execution γ φ) (fuel : Nat) (c : Config γ φ) : EStateM.Result Stop State Word :=
  Processor.run x.call x.entry x.ops x.places fuel c.place c.proc c.state

def perform (x : Execution γ φ) (op : Operation γ φ) (p : Processor γ φ) (s : State) :
    EStateM.Result Stop State (Processor γ φ × Flow) :=
  p.perform x.call x.entry op s

/-- Operations in a row, each of which passes control to the next. -/
inductive Steps (x : Execution γ φ) : Nat → Config γ φ → Config γ φ → Prop
  | refl (c : Config γ φ) : Steps x 0 c c
  | head {n : Nat} {c c' : Config γ φ} {op : Operation γ φ} {p : Processor γ φ} {s : State}
      (fetch : x.ops[c.place]? = some op) (perform : x.perform op c.proc c.state = .ok (p, .next) s)
      (rest : Steps x n ⟨c.place + 1, p, s⟩ c') : Steps x (n + 1) c c'

/-- Operations in a row, the last of which jumps to a target. -/
def Departs (x : Execution γ φ) (n : Nat) (c : Config γ φ) (target : JumpTarget) (p : Processor γ φ)
    (s : State) : Prop :=
  ∃ c' op, x.Steps n c c' ∧ x.ops[c'.place]? = some op ∧
    x.perform op c'.proc c'.state = .ok (p, .goto target) s

variable {x : Execution γ φ} {n m : Nat} {c c' c'' : Config γ φ} {target : JumpTarget}
  {p : Processor γ φ} {s : State}

/-- One operation. -/
lemma Steps.single (fetch : x.ops[c.place]? = some op)
    (perform : x.perform op c.proc c.state = .ok (p, .next) s) :
    x.Steps 1 c ⟨c.place + 1, p, s⟩ := .head fetch perform (.refl _)

/-- Two stretches in a row. -/
lemma Steps.trans (first : x.Steps n c c') (second : x.Steps m c' c'') : x.Steps (n + m) c c'' := by
  induction first with
  | refl c => rwa [Nat.zero_add]
  | head fetch perform _ ih =>
    rw [Nat.add_right_comm]
    exact .head fetch perform (ih second)

/-- A stretch before one that ends with a jump. -/
lemma Steps.departs (first : x.Steps n c c') (second : x.Departs m c' target p s) :
    x.Departs (n + m) c target p s := by
  obtain ⟨d, op, steps, fetch, perform⟩ := second
  exact ⟨d, op, first.trans steps, fetch, perform⟩

/-- A run begins with its first operation. -/
lemma run_succ (fetch : x.ops[c.place]? = some op) (fuel : Nat) : x.run (fuel + 1) c =
      match x.perform op c.proc c.state with
      | .ok (p, .next) s => x.run fuel ⟨c.place + 1, p, s⟩
      | .ok (p, .goto target) s =>
        match x.places.lookup target with
        | some place => x.run fuel ⟨place, p, s⟩
        | none => .ok p.status s
      | .ok (_, .done status) s => .ok status s
      | .error e s => .error e s := Processor.run_succ fetch

lemma run_zero (c : Config γ φ) : x.run 0 c = .error .stuck c.state := rfl

lemma Steps.run_add (steps : x.Steps n c c') (fuel : Nat) : x.run (n + fuel) c = x.run fuel c' := by
  induction steps with
  | refl c => rw [Nat.zero_add]
  | head fetch perform _ ih =>
    rw [Nat.add_right_comm, run_succ fetch, perform]
    exact ih

/-- A run with less fuel than its first stretch needs is stuck. -/
lemma Steps.run_le (steps : x.Steps n c c') : ∀ fuel ≤ n, ∃ s, x.run fuel c = .error .stuck s := by
  induction steps with
  | refl c =>
    intro fuel le
    rw [Nat.le_zero.1 le]
    exact ⟨c.state, rfl⟩
  | @head n c c' op p s fetch perform _ ih =>
    intro fuel le
    cases fuel with
    | zero => exact ⟨c.state, rfl⟩
    | succ fuel =>
      rw [run_succ fetch, perform]
      exact ih fuel (Nat.le_of_succ_le_succ le)

variable (departs : x.Departs n c target p s) (bound : x.places.lookup target = some place)
include departs bound

lemma Departs.run_add (fuel : Nat) : x.run (n + 1 + fuel) c = x.run fuel ⟨place, p, s⟩ := by
  obtain ⟨c', op, steps, fetch, perform⟩ := departs
  rw [Nat.add_assoc, steps.run_add, Nat.add_comm 1, run_succ fetch, perform]
  dsimp only
  rw [bound]

/-- A run with no more fuel than it needs to jump is stuck. -/
lemma Departs.run_le : ∀ fuel ≤ n + 1, ∃ s, x.run fuel c = .error .stuck s := by
  intro fuel le
  by_cases last : fuel = n + 1
  · subst last
    exact ⟨s, (departs.run_add bound 0).trans (run_zero _)⟩
  · obtain ⟨c', op, steps, -⟩ := departs
    exact steps.run_le fuel (by omega)

end Execution

end StackMachine.Native
