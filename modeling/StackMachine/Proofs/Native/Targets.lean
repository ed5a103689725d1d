import StackMachine.Proofs.Native.Boundary

/-!
# Jump targets

A jump goes to the first place that binds its target.  For a label this is the boundary before the
label (`Boundary.lookup_label`); a fault, the exit and the teardown are bound by the stubs at the
end of the code and nowhere else.  A run that comes to a stub ends with the stub's status
(`Execution.Stub.finishes`).
-/

namespace StackMachine.Native

variable {γ φ : Type}

/-! ### Places -/

/-- The target that an operation binds, with its place. -/
def bound? : Operation γ φ × Nat → Option (JumpTarget × Nat)
  | (.bind target, place) => some (target, place)
  | _ => none

/-- The places of targets are those of the operations that bind them. -/
lemma places_eq (ops : List (Operation γ φ)) : places ops = ops.zipIdx.filterMap bound? := by
  unfold places
  congr 1
  funext ⟨op, place⟩
  cases op <;> rfl

/-- A target that is not bound in a first part is looked for in the rest. -/
lemma lookup_places_append {front back : List (Operation γ φ)} {target : JumpTarget}
    (unbound : .bind target ∉ front) : (places (front ++ back)).lookup target =
      ((back.zipIdx front.length).filterMap bound?).lookup target := by
  have none : (front.zipIdx.filterMap bound?).lookup target = none := by
    rw [List.lookup_eq_none_iff]
    intro ⟨target', place⟩ mem
    obtain ⟨⟨op, place'⟩, inFront, bound⟩ := List.mem_filterMap.1 mem
    cases op <;> cases bound
    have inFront' := List.fst_mem_of_mem_zipIdx inFront
    refine bne_iff_ne.2 ?_
    rintro rfl
    exact unbound inFront'
  rw [places_eq, List.zipIdx_append, List.filterMap_append, List.lookup_append, none, Nat.zero_add]
  rfl

namespace GenState

/-- A target that is bound in a later code was bound where it stands. -/
lemma Grows.getElem?_bind {s t : GenState γ φ} {i : Nat} {target : JumpTarget} (grows : s.Grows t)
    (before : i < s.ops.size) (bound : t.ops[i]? = some (.bind target)) :
    s.ops[i]? = some (.bind target) := by
  have at_i := Array.getElem?_eq_getElem before
  rw [at_i, ← bound]
  by_cases widened : s.ops[i].isReserve = true ∧ s.openReserve = some i
  · obtain ⟨isReserve, opened⟩ := widened
    generalize s.ops[i] = op at at_i isReserve ⊢
    cases op <;> cases isReserve
    obtain ⟨_, -, at_i'⟩ := grows.widens i _ _ opened at_i
    rw [bound] at at_i'
    cases at_i'
  · refine (grows.keeps i _ at_i ?_).symm
    rwa [← Bool.not_eq_true, ← not_and_or]

end GenState

variable [DecidableEq γ] [DecidableEq φ]

namespace Boundary

variable {scope : Scope} {last : GenState γ φ} {ip : Nat} {s : GenState γ φ}

lemma lookup_label (h : Boundary scope last ip s) (isLabel : scope.IsLabel ip) :
    (places last.ops.toList).lookup (.instruction ip) = some s.ops.size := by
  obtain ⟨instr, at_ip, asks⟩ := isLabel.action
  obtain ⟨fused, u, passes⟩ := h.exists_passes at_ip
  obtain ⟨-, -, labelled⟩ := Gen.instruction_label asks passes.run
  have bound : last.ops[s.ops.size]? = some (.bind (.instruction ip)) := by
    refine (GenState.Grows.of_reserving passes.reserved passes.next.grows).keeps _ _ ?_ (.inl rfl)
    rw [labelled]
    exact Array.getElem?_push_size
  obtain ⟨inCode, here⟩ := Array.getElem?_eq_some_iff.1 bound
  have unbound : .bind (.instruction ip) ∉ last.ops.toList.take s.ops.size := by
    intro mem
    obtain ⟨i, before, at_i⟩ := List.mem_take_iff_getElem.1 mem
    have earlier : i < s.ops.size := Nat.lt_of_lt_of_le before (Nat.min_le_left _ _)
    have bound := h.grows.getElem?_bind earlier (Array.getElem?_eq_some_iff.2 ⟨_, at_i⟩)
    obtain ⟨j, before, same⟩ := h.binds _ (Array.mem_of_getElem? bound)
    cases same
    exact Nat.lt_irrefl _ before
  rw [← List.take_append_drop s.ops.size last.ops.toList, lookup_places_append unbound,
    List.drop_eq_getElem_cons (by simpa using inCode), List.length_take,
    Nat.min_eq_left (by simpa using Nat.le_of_lt inCode), Array.getElem_toList, here]
  exact List.lookup_cons_self

/-- The finished code is a body, in which only labels are bound, followed by the stubs. -/
lemma exists_body (h : Boundary scope last ip s) : ∃ code : Array (Operation γ φ),
    last.ops = code ++ Gen.stubs.toArray ∧ ∀ target, .bind target ∈ code →
    ∃ j, target = .instruction j := by
  induction h using induct with
  | passing _ _ _ ih => exact ih
  | ending h at_end =>
    obtain ⟨u, flushed, rfl⟩ := h.exists_flushed at_end
    refine ⟨u.ops, rfl, fun target mem => ?_⟩
    obtain ⟨more, eq, binds⟩ := (Gen.flushAll_known scope flushed).1.ops
    rw [eq] at mem
    rcases Array.mem_append.1 mem with before | new
    · obtain ⟨j, -, same⟩ := h.binds target before
      exact ⟨j, same⟩
    · exact ⟨_, binds target new⟩

end Boundary

/-! ### Ends of runs -/

namespace Execution

variable {x : Execution γ φ} {n m : Nat} {c c' c'' : Config γ φ} {target : JumpTarget}
  {p : Processor γ φ} {s : State} {status : Word} {place : Nat}

/-- A run goes from a configuration to another with so much fuel. -/
structure Goes (x : Execution γ φ) (n : Nat) (c c' : Config γ φ) : Prop where
  run_add : ∀ fuel, x.run (n + fuel) c = x.run fuel c'
  run_le : ∀ fuel ≤ n, ∃ s, x.run fuel c = .error .stuck s

/-- A run ends with a status, with one more operation than this. -/
structure Finishes (x : Execution γ φ) (n : Nat) (c : Config γ φ) (status : Word) (s : State) :
    Prop where
  run_add : ∀ fuel, x.run (n + 1 + fuel) c = .ok status s
  run_le : ∀ fuel ≤ n, ∃ s, x.run fuel c = .error .stuck s

lemma Steps.goes (steps : x.Steps n c c') : x.Goes n c c' := ⟨steps.run_add, steps.run_le⟩

lemma Departs.goes (departs : x.Departs n c target p s)
    (bound : x.places.lookup target = some place) : x.Goes (n + 1) c ⟨place, p, s⟩ :=
  ⟨departs.run_add bound, departs.run_le bound⟩

/-- One stretch after another. -/
lemma Goes.trans (first : x.Goes n c c') (second : x.Goes m c' c'') : x.Goes (n + m) c c'' where
  run_add fuel := by rw [Nat.add_assoc, first.run_add, second.run_add]
  run_le fuel le := by
    rcases Nat.le_total fuel n with short | long
    · exact first.run_le fuel short
    · obtain ⟨more, rfl⟩ := Nat.exists_eq_add_of_le long
      rw [first.run_add]
      exact second.run_le more (by omega)

/-- A stretch before the end. -/
lemma Goes.finishes (first : x.Goes n c c') (second : x.Finishes m c' status s) :
    x.Finishes (n + m) c status s where
  run_add fuel := by
    rw [Nat.add_assoc, Nat.add_assoc, first.run_add, ← Nat.add_assoc, second.run_add]
  run_le fuel le := by
    rcases Nat.le_total fuel n with short | long
    · exact first.run_le fuel short
    · obtain ⟨more, rfl⟩ := Nat.exists_eq_add_of_le long
      rw [first.run_add]
      exact second.run_le more (by omega)

lemma Finishes.eq_of_run {fuel : Nat} {r : EStateM.Result Stop State Word}
    (finishes : x.Finishes n c status s) (run : x.run fuel c = r)
    (ended : ∀ t, r ≠ .error .stuck t) : r = .ok status s := by
  by_cases short : fuel ≤ n
  · obtain ⟨t, stuck⟩ := finishes.run_le fuel short
    exact absurd (run.symm.trans stuck) (ended t)
  · obtain ⟨more, rfl⟩ := Nat.exists_eq_add_of_lt (Nat.not_le.1 short)
    rw [← run, Nat.add_right_comm, finishes.run_add]

/-- The stub of a target sets a status. -/
def Stub (x : Execution γ φ) (target : JumpTarget) (status : Word) : Prop :=
  ∃ place, x.places.lookup target = some place ∧ x.ops[place]? = some (.bind target) ∧
    x.ops[place + 1]? = some (.status status)

/-- The end of the code is bound. -/
def Ends (x : Execution γ φ) : Prop :=
  ∃ place, x.places.lookup .teardown = some place ∧ x.ops[place]? = some (.bind .teardown) ∧
    x.ops[place + 1]? = some .teardown

/-- A run that comes to a stub ends with the stub's status. -/
lemma finishes_of_stub (binds : x.ops[place]? = some (.bind target))
    (sets : x.ops[place + 1]? = some (.status status)) (ends : x.Ends) :
    x.Finishes 3 ⟨place, p, s⟩ status s := by
  obtain ⟨place', bound', binds', tears⟩ := ends
  have first : x.Steps 1 ⟨place, p, s⟩ ⟨place + 1, p, s⟩ := .single binds rfl
  have second : x.Departs 0 ⟨place + 1, p, s⟩ .teardown { p with status } s :=
    ⟨_, _, .refl _, sets, rfl⟩
  have third : x.Steps 1 ⟨place', { p with status }, s⟩ ⟨place' + 1, { p with status }, s⟩ :=
    .single binds' rfl
  have fourth : x.Finishes 0 ⟨place' + 1, { p with status }, s⟩ status s := by
    refine ⟨fun fuel => ?_, fun fuel none => ⟨s, ?_⟩⟩
    · rw [Nat.zero_add, Nat.add_comm, run_succ tears]
      rfl
    · rw [Nat.le_zero.1 none]
      rfl
  exact first.goes.finishes ((second.goes bound').finishes (third.goes.finishes fourth))

/-- A jump to a stub ends the run with the stub's status. -/
lemma Stub.finishes (stub : x.Stub target status) (ends : x.Ends)
    (departs : x.Departs n c target p s) : x.Finishes (n + 1 + 3) c status s := by
  obtain ⟨place, bound, binds, sets⟩ := stub
  exact (departs.goes bound).finishes (finishes_of_stub binds sets ends)

end Execution

namespace Boundary

variable {x : Execution γ φ} {ip : Nat} {s : GenState γ φ}

/-- The place of a stub among the stubs. -/
private def stubPlace : JumpTarget → Nat
  | .exit => 0
  | .fault .nil => 2
  | .fault .under => 4
  | .fault .over => 6
  | .fault .divZero => 8
  | .fault .stackOverflow => 10
  | _ => 12

/-- A target other than a label is bound by its stub. -/
lemma lookup_stub {scope : Scope} {last : GenState γ φ} (h : Boundary scope last ip s)
    (target : JumpTarget) (notLabel : ∀ j, target ≠ .instruction j) :
    ∃ place, (places last.ops.toList).lookup target = some place ∧
      ∀ i, last.ops[place + i]? = Gen.stubs[stubPlace target + i]? := by
  obtain ⟨code, ops, binds⟩ := h.exists_body
  have unbound : .bind target ∉ code.toList := by
    intro mem
    obtain ⟨j, same⟩ := binds target (Array.mem_toList_iff.1 mem)
    exact notLabel j same
  refine ⟨code.toList.length + stubPlace target, ?_, fun i => ?_⟩
  · rw [ops, Array.toList_append, lookup_places_append unbound]
    cases target with
    | instruction j => exact absurd rfl (notLabel j)
    | fault kind => cases kind <;> rfl
    | exit => rfl
    | teardown => rfl
  · rw [ops, Nat.add_assoc, Array.length_toList,
      Array.getElem?_append_right (Nat.le_add_right _ _), Nat.add_sub_cancel_left]
    exact List.getElem?_toArray

variable (h : Boundary x.scope x.last ip s)
include h

lemma stub_exit : x.Stub .exit 0 := by
  obtain ⟨place, bound, at_place⟩ := h.lookup_stub .exit nofun
  exact ⟨place, bound, at_place 0, at_place 1⟩

lemma stub_fault (kind : FaultKind) : x.Stub (.fault kind) kind.status := by
  obtain ⟨place, bound, at_place⟩ := h.lookup_stub (.fault kind) nofun
  refine ⟨place, bound, (at_place 0).trans ?_, (at_place 1).trans ?_⟩ <;> cases kind <;> rfl

lemma ends : x.Ends := by
  obtain ⟨place, bound, at_place⟩ := h.lookup_stub .teardown nofun
  exact ⟨place, bound, at_place 0, at_place 1⟩

end Boundary

end StackMachine.Native
