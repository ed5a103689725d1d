import StackMachine.Proofs.Native.Execution

/-!
# Triples over generator and machine

Generation and execution are followed together: `Triple x E closed P g Q` says that a part `g` of
the generator only appends operations, and that from every configuration at the end of the code so
far with `P`, the operations that `g` appends are run through and lead to the end of the code with
`Q`, or to a jump with `E`.

A reservation of room on the operand stack may still be widened by later parts of the generator.
While it is open, nothing observable may happen: `Reaches` demands that the state is unchanged as
long as a reservation stays open, and that no jump is taken.
-/

namespace StackMachine.Native

variable {γ φ : Type}

def Operation.isReserve : Operation γ φ → Bool
  | .reserve _ _ => true
  | _ => false

/-- An operation that neither reserves room nor is the place of a target. -/
def Operation.isProper : Operation γ φ → Bool
  | .reserve _ _ | .bind _ => false
  | _ => true

/-- The slot that an operand is in. -/
def Src.slots : Src γ → List Nat
  | .slot index => [index]
  | _ => []

/-- The slots that an operation reads or writes by their index. -/
def Operation.slots : Operation γ φ → List Nat
  | .int _ _ src | .divide _ _ src _ | .compare _ src | .store _ _ _ src | .push src => src.slots
  | .loadSlot _ slot | .loadFloatSlot _ slot | .storeFloatSlot slot _ => [slot]
  | .storeSlot slot src => slot :: src.slots
  | _ => []

/-- The slots that compiled code uses: those of the instance and of the memory of its class, those
for registers across a runtime call, and those of the locals. -/
def IsUsed (locals slot : Nat) : Prop :=
  slot = FrameSlot.classMemory.index ∨ slot = FrameSlot.receiver.index ∨
    (intSpillBase ≤ slot ∧ slot < localsBase) ∨ (localsBase ≤ slot ∧ slot < frameSlots locals)

lemma isUsed_localSlot {locals k : Nat} (lt : k < locals) : IsUsed locals (localSlot k) :=
  .inr (.inr (.inr ⟨Nat.le_add_right _ _, Nat.add_lt_add_left lt _⟩))

/-- The word count of a reservation for a number of words. -/
def reserveWords (depth : Nat) : UInt32 := UInt32.ofNat (min depth 0xFFFFFFFF)

/-- The word count of a reservation is the number of words, as far as 32 bits can tell. -/
lemma toNat_reserveWords (depth : Nat) : (reserveWords depth).toNat = min depth 0xFFFFFFFF := by
  exact Nat.mod_eq_of_lt (by omega)

/-- A generator part that ends well was made of parts that ended well. -/
lemma Gen.bind_eq_ok {α β : Type} {g : Gen γ φ α} {f : α → Gen γ φ β} {s t : GenState γ φ} {b : β} :
    (g >>= f) s = .ok b t ↔ ∃ a u, g s = .ok a u ∧ f a u = .ok b t := by
  show EStateM.bind g f s = _ ↔ _
  unfold EStateM.bind
  cases g s with
  | ok a u => simp
  | error e u => simp

namespace GenState

/-- The pools have not been exhausted. -/
def Alive (s : GenState γ φ) : Prop := s.ints.failed = false ∧ s.floats.failed = false

/-- The code names no other slots. -/
def Uses (locals : Nat) (s : GenState γ φ) : Prop := ∀ op ∈ s.ops, ∀ slot ∈ op.slots,
    IsUsed locals slot

lemma Uses.push {locals : Nat} {s : GenState γ φ} {op : Operation γ φ} (uses : s.Uses locals)
    (last : ∀ slot ∈ op.slots, IsUsed locals slot) :
    ({ s with ops := s.ops.push op }).Uses locals := by
  intro op' mem
  rcases Array.mem_push.1 mem with before | rfl
  · exact uses op' before
  · exact last

/-- What a part of the generator does to the code: it appends operations, binds no target but the
current instruction, and may close the open reservation. -/
structure Adds (s t : GenState γ φ) : Prop where
  ops : ∃ more, t.ops = s.ops ++ more ∧ ∀ target, .bind target ∈ more → target = .instruction s.ip
  alive : t.Alive → s.Alive
  reserve : t.openReserve = s.openReserve ∨ t.openReserve = none
  covered : t.openReserve ≠ none → t.covered = s.covered
  ip : t.ip = s.ip

namespace Adds

variable {s t u : GenState γ φ} {op : Operation γ φ}

lemma refl (s : GenState γ φ) :
    s.Adds s := ⟨⟨#[], by simp, by simp⟩, id, .inl rfl, fun _ => rfl, rfl⟩

/-- A part that leaves the code alone. -/
lemma ofSame (ops : t.ops = s.ops) (alive : t.Alive → s.Alive)
    (reserve : t.openReserve = s.openReserve ∨ t.openReserve = none)
    (covered : t.openReserve ≠ none → t.covered = s.covered) (ip : t.ip = s.ip) : s.Adds t :=
  ⟨⟨#[], by simp [ops], by simp⟩, alive, reserve, covered, ip⟩

/-- Two parts in a row. -/
lemma trans (first : s.Adds t) (second : t.Adds u) : s.Adds u := by
  obtain ⟨more, eq, binds⟩ := first.ops
  obtain ⟨more', eq', binds'⟩ := second.ops
  refine ⟨⟨more ++ more', by rw [eq', eq, Array.append_assoc], ?_⟩, first.alive ∘ second.alive, ?_,
    ?_, second.ip.trans first.ip⟩
  · intro target mem
    rcases Array.mem_append.1 mem with mem | mem
    · exact binds target mem
    · exact first.ip ▸ binds' target mem
  · rcases second.reserve with same | isNone
    · rw [same]
      exact first.reserve
    · exact .inr isNone
  · intro opened
    have opened' : t.openReserve ≠ none := by
      rcases second.reserve with same | isNone
      · rwa [← same]
      · exact absurd isNone opened
    exact (second.covered opened).trans (first.covered opened')

/-- Appending an operation that binds no target. -/
lemma push (s : GenState γ φ) (proper : op.isProper) : s.Adds { s with ops := s.ops.push op } := by
  refine ⟨⟨#[op], by simp, ?_⟩, id, .inl rfl, fun _ => rfl, rfl⟩
  intro target mem
  rw [Array.mem_singleton] at mem
  subst mem
  cases proper

lemma closed (h : s.Adds t) (isNone : s.openReserve = none) :
    t.openReserve = none := h.reserve.elim (·.trans isNone) id

/-- The operations so far stay in place. -/
lemma getElem? (h : s.Adds t) {i : Nat} (at_i : s.ops[i]? = some op) : t.ops[i]? = some op := by
  obtain ⟨more, eq, -⟩ := h.ops
  obtain ⟨bound, -⟩ := Array.getElem?_eq_some_iff.1 at_i
  rw [eq, Array.getElem?_append_left bound, at_i]

/-- The code only gets longer. -/
lemma size_le (h : s.Adds t) : s.ops.size ≤ t.ops.size := by
  obtain ⟨more, eq, -⟩ := h.ops
  rw [eq, Array.size_append]
  exact Nat.le_add_right _ _

end Adds

/-- How the code so far stands in a later code: an operation stays as it is, except that the open
reservation may be widened. -/
structure Grows (s t : GenState γ φ) : Prop where
  size_le : s.ops.size ≤ t.ops.size
  keeps : ∀ i op, s.ops[i]? = some op → op.isReserve = false ∨ s.openReserve ≠ some i →
    t.ops[i]? = some op
  widens : ∀ i words target, s.openReserve = some i → s.ops[i]? = some (.reserve words target) →
      ∃ wider, words ≤ wider ∧ t.ops[i]? = some (.reserve wider target)

namespace Grows

variable {s t u : GenState γ φ}

/-- A part that stands in a code stands there with what came before it. -/
lemma of_adds (first : s.Adds t) (second : t.Grows u) : s.Grows u where
  size_le := Nat.le_trans first.size_le second.size_le
  keeps i op at_i kept := by
    refine second.keeps i op (first.getElem? at_i) (kept.imp_right fun other => ?_)
    rcases first.reserve with same | isNone
    · rwa [same]
    · rw [isNone]
      exact Option.some_ne_none i ∘ Eq.symm
  widens i words target opened at_i := by
    rcases first.reserve with same | isNone
    · exact second.widens i words target (same.trans opened) (first.getElem? at_i)
    · refine ⟨words, UInt32.le_refl _, second.keeps i _ (first.getElem? at_i) (.inr ?_)⟩
      rw [isNone]
      exact Option.some_ne_none i ∘ Eq.symm

/-- The last operation of a part stays as it is, unless it is a reservation. -/
lemma fetch_push {op : Operation γ φ} (h : ({ s with ops := s.ops.push op }).Grows t)
    (proper : op.isProper) : t.ops[s.ops.size]? = some op :=
  h.keeps s.ops.size op (by simp) (.inl (by cases op <;> first | rfl | cases proper))

end Grows

end GenState

open GenState

variable [DecidableEq γ] [DecidableEq φ]

/-- What is known about the generator, whether or not its code is ever run, and what holds of it and
a configuration when the code is run. -/
structure Assertion (γ φ : Type) where
  known : GenState γ φ → Prop
  holds : GenState γ φ → Config γ φ → Prop

/-- Something more is known about the generator. -/
def Assertion.also (P : Assertion γ φ) (fact : GenState γ φ → Prop) : Assertion γ φ :=
  ⟨fun s => fact s ∧ P.known s, P.holds⟩

/-- Something more holds when the code is run. -/
def Assertion.given (P : Assertion γ φ) (fact : Prop) : Assertion γ φ :=
  ⟨P.known, fun s c => fact ∧ P.holds s c⟩

/-- What is known where a jump is taken. -/
abbrev ExitAssertion (γ φ : Type) := JumpTarget → Processor γ φ → State → Prop

namespace Execution

/-- From a configuration the operations up to the end of a generated code are run through, or a jump
is taken.  While a reservation is open no jump is taken and the state is not touched. -/
def Reaches (x : Execution γ φ) (E : ExitAssertion γ φ) (c : Config γ φ) (t : GenState γ φ)
    (Q : Config γ φ → Prop) : Prop :=
  (∃ n c', x.Steps n c c' ∧ c'.place = t.ops.size ∧ (t.openReserve ≠ none → c'.state = c.state) ∧
    Q c') ∨
  (t.openReserve = none ∧ ∃ n target p s, x.Departs n c target p s ∧ E target p s)

/-- Less may be asked of where a code leads. -/
lemma Reaches.imp {x : Execution γ φ} {E E' : ExitAssertion γ φ} {c : Config γ φ} {t : GenState γ φ}
    {Q Q' : Config γ φ → Prop} (reaches : x.Reaches E c t Q)
    (exits : ∀ target p s, E target p s → E' target p s) (ends : ∀ c', Q c' → Q' c') :
    x.Reaches E' c t Q' := by
  rcases reaches with
    ⟨n, c', steps, at_c', quiet, after⟩ | ⟨isNone, n, target, p, s, departs, jumped⟩
  · exact .inl ⟨n, c', steps, at_c', quiet, ends c' after⟩
  · exact .inr ⟨isNone, n, target, p, s, departs, exits target p s jumped⟩

end Execution

/-- A part of the generator appends operations that lead from `P` to `Q`, or to a jump with `E`.
A part that is `closed` is only used where no reservation is open. -/
structure Triple {α : Type} (x : Execution γ φ) (E : ExitAssertion γ φ) (closed : Bool)
    (P : Assertion γ φ) (g : Gen γ φ α) (Q : α → Assertion γ φ) : Prop where
  adds : ∀ {s t : GenState γ φ} {a : α}, (closed = true → s.openReserve = none) → g s = .ok a t →
    s.Adds t
  knows : ∀ {s t : GenState γ φ} {a : α}, (closed = true → s.openReserve = none) →
    g s = .ok a t → t.Alive → P.known s → (Q a).known t
  uses : ∀ {s t : GenState γ φ} {a : α}, (closed = true → s.openReserve = none) →
    g s = .ok a t → t.Alive → P.known s → s.Uses x.locals → t.Uses x.locals
  runs : ∀ {s t : GenState γ φ} {a : α}, (closed = true → s.openReserve = none) →
    g s = .ok a t → t.Alive → t.Grows x.last → P.known s → ∀ c, c.place = s.ops.size →
      P.holds s c → x.Reaches E c t ((Q a).holds t)

namespace Triple

variable {α β : Type} {x : Execution γ φ} {E : ExitAssertion γ φ} {closed : Bool}
  {P P' : Assertion γ φ} {g : Gen γ φ α} {Q Q' : α → Assertion γ φ} {f : α → Gen γ φ β}
  {fact : Prop} {R : β → Assertion γ φ}

/-- A part that appends nothing and leaves the state alone. -/
lemma pure {a : α} (known : ∀ s, P.known s → (Q a).known s)
    (holds : ∀ s c, P.known s → P.holds s c → (Q a).holds s c) :
    Triple x E closed P (Pure.pure a) Q where
  adds _ run := by
    cases run
    exact .refl _
  knows _ run _ knows := by
    cases run
    exact known _ knows
  uses _ run _ _ before := by
    cases run
    exact before
  runs _ run _ _ knows c at_c before := by
    cases run
    exact .inl ⟨0, c, .refl c, at_c, fun _ => rfl, holds _ c knows before⟩

lemma done {a : α} (same : P = Q a) : Triple x E closed P (Pure.pure a) Q := by
  subst same
  exact pure (fun _ => id) fun _ _ _ => id

section

variable {more : GenState γ φ → Prop} (h : Triple x E closed P g Q)
include h

section

variable (known : ∀ s, P'.known s → P.known s)
  (holds : ∀ s c, P'.known s → P'.holds s c → P.holds s c)
include known holds

/-- Stronger before and weaker after. -/
lemma mono (known' : ∀ a s, (Q a).known s → (Q' a).known s)
    (holds' : ∀ a s c, (Q a).known s → (Q a).holds s c → (Q' a).holds s c) :
    Triple x E closed P' g Q' where
  adds := h.adds
  knows allowed run alive knows := known' _ _ (h.knows allowed run alive (known _ knows))
  uses allowed run alive knows := h.uses allowed run alive (known _ knows)
  runs allowed run alive grows knows c at_c before :=
    (h.runs allowed run alive grows (known _ knows) c at_c (holds _ _ knows before)).imp
      (fun _ _ _ => id) fun _ => holds' _ _ _ (h.knows allowed run alive (known _ knows))

lemma pre : Triple x E closed P' g Q :=
  h.mono known holds (fun _ _ => id) fun _ _ _ _ => id

end

lemma post (known : ∀ a s, (Q a).known s → (Q' a).known s)
    (holds : ∀ a s c, (Q a).known s → (Q a).holds s c → (Q' a).holds s c) :
    Triple x E closed P g Q' :=
  h.mono (fun _ => id) (fun _ _ _ => id) known holds

/-- More may be known about the generator than is needed. -/
lemma forget : Triple x E closed (P.also more) g Q :=
  h.pre (fun _ known => known.2) fun _ _ _ => id

/-- A fact about the generator that a part keeps. -/
lemma frame (fact : GenState γ φ → Prop)
    (stays : ∀ {s t : GenState γ φ} {a : α}, g s = .ok a t → fact s → fact t) :
    Triple x E closed (P.also fact) g fun a => (Q a).also fact where
  adds := h.adds
  knows allowed run alive knows := ⟨stays run knows.1, h.knows allowed run alive knows.2⟩
  uses allowed run alive knows := h.uses allowed run alive knows.2
  runs allowed run alive grows knows := h.runs allowed run alive grows knows.2

/-- A fact about the generator that a part establishes. -/
lemma ensure (fact : α → GenState γ φ → Prop)
    (gives : ∀ {s t : GenState γ φ} {a : α}, P.known s → g s = .ok a t → fact a t) :
    Triple x E closed P g fun a => (Q a).also (fact a) where
  adds := h.adds
  knows allowed run alive knows := ⟨gives knows run, h.knows allowed run alive knows⟩
  uses := h.uses
  runs := h.runs

end

/-- A part that never ends well. -/
lemma fails (never : ∀ s a t, g s ≠ .ok a t) : Triple x E closed P g Q where
  adds _ run := absurd run (never _ _ _)
  knows _ run := absurd run (never _ _ _)
  uses _ run := absurd run (never _ _ _)
  runs _ run := absurd run (never _ _ _)

/-- A part that depends on the generator's state. -/
lemma ofGet {f : GenState γ φ → Gen γ φ α}
    (h : ∀ s₀, Triple x E closed (P.also (· = s₀)) (f s₀) Q) :
    Triple x E closed P (get >>= f) Q where
  adds {s _ _} allowed run := (h s).adds allowed run
  knows {s _ _} allowed run alive known := (h s).knows allowed run alive ⟨rfl, known⟩
  uses {s _ _} allowed run alive known := (h s).uses allowed run alive ⟨rfl, known⟩
  runs {s _ _} allowed run alive grows known := (h s).runs allowed run alive grows ⟨rfl, known⟩

/-- A fact that does not depend on the generator or the configuration. -/
lemma given (h : Triple x E closed P g Q) :
    Triple x E closed (P.given fact) g fun a => (Q a).given fact where
  adds := h.adds
  knows := h.knows
  uses := h.uses
  runs allowed run alive grows knows c at_c holds :=
    (h.runs allowed run alive grows knows c at_c holds.2).imp (fun _ _ _ => id) fun _ after =>
      ⟨holds.1, after⟩

/-- A part that is only run where a fact holds.  It has to be followed somehow where it does not,
for what is known about the generator. -/
lemma supposing {E₀ : ExitAssertion γ φ} {P₀ : Assertion γ φ} {Q₀ : α → Assertion γ φ}
    (h : fact → Triple x E closed P g Q) (h₀ : Triple x E₀ closed P₀ g Q₀)
    (known : ∀ s, P.known s → P₀.known s) (known' : ∀ a s, (Q₀ a).known s → (Q a).known s) :
    Triple x E closed (P.given fact) g Q where
  adds := h₀.adds
  knows allowed run alive knows := known' _ _ (h₀.knows allowed run alive (known _ knows))
  uses allowed run alive knows := h₀.uses allowed run alive (known _ knows)
  runs allowed run alive grows knows c at_c holds :=
    (h holds.1).runs allowed run alive grows knows c at_c holds.2

/-- Two parts in a row, the second of which may need the reservation closed. -/
lemma bindWith {closed' : Bool} (first : Triple x E closed P g Q)
    (closes : ∀ {s t : GenState γ φ} {a : α}, (closed = true → s.openReserve = none) →
      g s = .ok a t → closed' = true → t.openReserve = none)
    (second : ∀ a, Triple x E closed' (Q a) (f a) R) : Triple x E closed P (g >>= f) R where
  adds {s t b} allowed run := by
    obtain ⟨a, u, run₁, run₂⟩ := Gen.bind_eq_ok.1 run
    exact (first.adds allowed run₁).trans ((second a).adds (closes allowed run₁) run₂)
  knows {s t b} allowed run alive knows := by
    obtain ⟨a, u, run₁, run₂⟩ := Gen.bind_eq_ok.1 run
    have alive₁ := ((second a).adds (closes allowed run₁) run₂).alive alive
    exact (second a).knows (closes allowed run₁) run₂ alive (first.knows allowed run₁ alive₁ knows)
  uses {s t b} allowed run alive knows before := by
    obtain ⟨a, u, run₁, run₂⟩ := Gen.bind_eq_ok.1 run
    have alive₁ := ((second a).adds (closes allowed run₁) run₂).alive alive
    exact (second a).uses (closes allowed run₁) run₂ alive (first.knows allowed run₁ alive₁ knows)
      (first.uses allowed run₁ alive₁ knows before)
  runs {s t b} allowed run alive grows knows c at_c holds := by
    obtain ⟨a, u, run₁, run₂⟩ := Gen.bind_eq_ok.1 run
    have allowed₂ := closes allowed run₁
    have adds₂ := (second a).adds allowed₂ run₂
    have knows₁ := first.knows allowed run₁ (adds₂.alive alive) knows
    rcases first.runs allowed run₁ (adds₂.alive alive) (.of_adds adds₂ grows) knows c at_c
      holds with
      ⟨n, c₁, steps₁, at_c₁, quiet₁, holds₁⟩ | ⟨isNone, n, target, p, σ, departs, exits⟩
    · rcases (second a).runs allowed₂ run₂ alive grows knows₁ c₁ at_c₁ holds₁ with
        ⟨m, c₂, steps₂, at_c₂, quiet₂, holds₂⟩ | ⟨isNone, m, target, p, σ, departs, exits⟩
      · refine .inl ⟨n + m, c₂, steps₁.trans steps₂, at_c₂, fun opened => ?_, holds₂⟩
        have opened₁ : u.openReserve ≠ none := fun isNone => opened (adds₂.closed isNone)
        exact (quiet₂ opened).trans (quiet₁ opened₁)
      · exact .inr ⟨isNone, n + m, target, p, σ, steps₁.departs departs, exits⟩
    · exact .inr ⟨adds₂.closed isNone, n, target, p, σ, departs, exits⟩

/-- Two parts in a row. -/
lemma bind (first : Triple x E closed P g Q) (second : ∀ a, Triple x E closed (Q a) (f a) R) :
    Triple x E closed P (g >>= f) R :=
  first.bindWith (fun allowed run isClosed => (first.adds allowed run).closed (allowed isClosed))
    second

/-- A part that closes the reservation, and one that needs it closed. -/
lemma bindClosing (first : Triple x E closed P g Q)
    (closes : ∀ {s t : GenState γ φ} {a : α}, g s = .ok a t → t.openReserve = none)
    (second : ∀ a, Triple x E true (Q a) (f a) R) : Triple x E closed P (g >>= f) R :=
  first.bindWith (fun _ run _ => closes run) second

/-- A part that appends nothing. -/
lemma still
    (adds : ∀ {s t : GenState γ φ} {a : α}, (closed = true → s.openReserve = none) → g s = .ok a t →
      t.ops = s.ops ∧ s.Adds t)
    (knows : ∀ {s t : GenState γ φ} {a : α}, g s = .ok a t → t.Alive → P.known s → (Q a).known t)
    (holds : ∀ {s t : GenState γ φ} {a : α}, g s = .ok a t → t.Alive → P.known s →
      ∀ c, P.holds s c → (Q a).holds t c) :
    Triple x E closed P g Q where
  adds allowed run := (adds allowed run).2
  knows _ := knows
  uses allowed run _ _ before := by
    rw [Uses, (adds allowed run).1]
    exact before
  runs allowed run alive _ known c at_c before :=
    .inl ⟨0, c, .refl c, at_c.trans (by rw [(adds allowed run).1]), fun _ => rfl,
      holds run alive known c before⟩

section Emit

variable {Q : Unit → Assertion γ φ} {op : Operation γ φ}

omit [DecidableEq γ] [DecidableEq φ] in
/-- An operation that names no slot. -/
lemma uses_nil {locals : Nat} : ∀ s, P.known s → ∀ slot ∈ ([] : List Nat), IsUsed locals slot :=
  fun _ _ => List.forall_mem_nil _

lemma emit_closing {close : Gen γ φ Unit} (proper : op.isProper)
    (closes : ∀ {s t : GenState γ φ}, close s = .ok () t → t.ops = s.ops ∧ s.Adds t ∧
      t.openReserve = none)
    (knows : ∀ s t, P.known s → close { s with ops := s.ops.push op } = .ok () t → (Q ()).known t)
    (performs : ∀ s c t, P.known s → P.holds s c → close { s with ops := s.ops.push op } =
      .ok () t → ∃ p flow σ, x.perform op c.proc c.state = .ok (p, flow) σ ∧
      ((flow = .next ∧ (Q ()).holds t ⟨c.place + 1, p, σ⟩) ∨
      (∃ target, flow = .goto target ∧ E target p σ))) (none : op.slots = []) :
    Triple x E closed P (Gen.emit op >>= fun _ => close) Q where
  adds {s t a} _ run := by
    obtain ⟨_, u, run₁, run₂⟩ := Gen.bind_eq_ok.1 run
    cases run₁
    exact (Adds.push s proper).trans (closes run₂).2.1
  knows {s t a} _ run _ known := by
    obtain ⟨_, u, run₁, run₂⟩ := Gen.bind_eq_ok.1 run
    cases run₁
    exact knows s t known run₂
  uses {s t a} _ run _ known before := by
    obtain ⟨_, u, run₁, run₂⟩ := Gen.bind_eq_ok.1 run
    cases run₁
    rw [Uses, (closes run₂).1]
    exact before.push (none ▸ List.forall_mem_nil _)
  runs {s t a} _ run alive grows known c at_c holds := by
    obtain ⟨_, u, run₁, run₂⟩ := Gen.bind_eq_ok.1 run
    cases run₁
    obtain ⟨sameOps, adds, isNone⟩ := closes run₂
    have fetch : x.ops[c.place]? = some op := at_c ▸ (Grows.of_adds adds grows).fetch_push proper
    obtain ⟨p, flow, σ, performed, ⟨rfl, after⟩ | ⟨target, rfl, exits⟩⟩ :=
      performs s c t known holds run₂
    · refine .inl ⟨1, _, .single fetch performed, ?_, absurd isNone, after⟩
      rw [sameOps, at_c, Array.size_push]
    · exact .inr ⟨isNone, 0, target, p, σ, ⟨c, op, .refl c, fetch, performed⟩, exits⟩

section

variable (proper : op.isProper)
  (knows : ∀ s, P.known s → (Q ()).known { s with ops := s.ops.push op })
include proper knows

/-- One operation: it passes control on, or it jumps.  With an open reservation it may do neither
harm: the state stays as it is and control is passed on. -/
lemma emit
    (performs : ∀ s c, ({ s with ops := s.ops.push op }).Grows x.last → P.known s → P.holds s c →
      ∃ p flow σ, x.perform op c.proc c.state = .ok (p, flow) σ ∧
      ((flow = .next ∧ (closed = true ∨ σ = c.state) ∧ (Q ()).holds { s with ops := s.ops.push op }
      ⟨c.place + 1, p, σ⟩) ∨ (∃ target, flow = .goto target ∧ closed = true ∧ E target p σ)))
    (uses : ∀ s, P.known s → ∀ slot ∈ op.slots, IsUsed x.locals slot) :
    Triple x E closed P (Gen.emit op) Q where
  adds _ run := by
    cases run
    exact .push _ proper
  knows _ run _ known := by
    cases run
    exact knows _ known
  uses {s _ _} _ run _ known before := by
    cases run
    exact before.push (uses s known)
  runs {s t a} allowed run alive grows known c at_c holds := by
    cases run
    have fetch : x.ops[c.place]? = some op := at_c ▸ grows.fetch_push proper
    obtain ⟨p, flow, σ, run, ⟨rfl, quiet, after⟩ | ⟨target, rfl, isClosed, exits⟩⟩ :=
      performs s c grows known holds
    · refine .inl ⟨1, _, .single fetch run, ?_, fun opened => ?_, after⟩
      · rw [at_c, Array.size_push]
      · exact quiet.resolve_left fun isClosed => opened (allowed isClosed)
    · exact .inr ⟨allowed isClosed, 0, target, p, σ, ⟨c, op, .refl c, fetch, run⟩, exits⟩

/-- One operation that only changes the processor. -/
lemma emit_quiet
    (performs : ∀ s c, P.known s → P.holds s c →
      ∃ p, x.perform op c.proc c.state = .ok (p, .next) c.state ∧
      (Q ()).holds { s with ops := s.ops.push op } ⟨c.place + 1, p, c.state⟩)
    (uses : ∀ s, P.known s → ∀ slot ∈ op.slots, IsUsed x.locals slot) :
    Triple x E closed P (Gen.emit op) Q := by
  refine emit proper knows (fun s c _ known holds => ?_) uses
  obtain ⟨p, run, after⟩ := performs s c known holds
  exact ⟨p, .next, c.state, run, .inl ⟨rfl, .inr rfl, after⟩⟩

/-- One operation that only changes the state, where no reservation is open. -/
lemma emit_effect
    (performs : ∀ s c, ({ s with ops := s.ops.push op }).Grows x.last → P.known s → P.holds s c →
      ∃ σ, x.perform op c.proc c.state = .ok (c.proc, .next) σ ∧
      (Q ()).holds { s with ops := s.ops.push op } ⟨c.place + 1, c.proc, σ⟩)
    (uses : ∀ s, P.known s → ∀ slot ∈ op.slots, IsUsed x.locals slot) :
    Triple x E true P (Gen.emit op) Q := by
  refine emit proper knows (fun s c grows known holds => ?_) uses
  obtain ⟨σ, run, after⟩ := performs s c grows known holds
  exact ⟨c.proc, .next, σ, run, .inl ⟨rfl, .inl rfl, after⟩⟩

end

lemma closeReserve (knows : ∀ s, P.known s → (Q ()).known { s with openReserve := none })
    (holds : ∀ s c, P.holds s c → (Q ()).holds { s with openReserve := none } c) :
    Triple x E closed P Gen.closeReserve Q := by
  refine still (fun _ run => ?_) (fun run _ known => ?_) fun run _ _ c before => ?_
  all_goals cases run
  · exact ⟨rfl, .ofSame rfl id (.inr rfl) (absurd rfl) rfl⟩
  · exact knows _ known
  · exact holds _ c before

/-- A check that jumps to a fault closes the reservation first. -/
lemma check (proper : op.isProper) (same : ∀ s, P.known s → P.known { s with openReserve := none })
    (same' : ∀ s c, P.holds s c → P.holds { s with openReserve := none } c)
    (knows : ∀ s, P.known s → (Q ()).known { s with ops := s.ops.push op })
    (performs : ∀ s c, P.known s → P.holds s c → ∃ p flow, x.perform op c.proc c.state =
      .ok (p, flow) c.state ∧
      ((flow = .next ∧ (Q ()).holds { s with ops := s.ops.push op } ⟨c.place + 1, p, c.state⟩) ∨
      (∃ target, flow = .goto target ∧ E target p c.state)))
    (uses : ∀ s, P.known s → ∀ slot ∈ op.slots, IsUsed x.locals slot) :
    Triple x E closed P (Gen.check op) Q := by
  refine (closeReserve (Q := fun _ => P) same same').bindClosing (fun run => ?_) fun _ => ?_
  · cases run
    rfl
  · refine emit proper knows (fun s c _ known holds => ?_) uses
    obtain ⟨p, flow, run, ⟨isNext, after⟩ | ⟨target, isGoto, exits⟩⟩ := performs s c known holds
    · exact ⟨p, flow, c.state, run, .inl ⟨isNext, .inl rfl, after⟩⟩
    · exact ⟨p, flow, c.state, run, .inr ⟨target, isGoto, rfl, exits⟩⟩

end Emit

end Triple

end StackMachine.Native
