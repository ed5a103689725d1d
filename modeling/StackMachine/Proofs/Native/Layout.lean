import Mathlib.Data.List.Induction
import StackMachine.Proofs.Native.Lowering
import StackMachine.Proofs.Native.Targets
import StackMachine.Proofs.Resolution

/-!
# The layout of assembled code

The code of a list of operations is the code of each of them in turn.  A target is bound to the
offset at which the code of the operation that binds it starts (`Assembly.offsetOf?_eq`), the
branches of an operation are recorded inside its code, one for each of its targets
(`Assembly.exists_of_site`, `Assembly.exists_site`), and no two of them share a byte
(`Assembly.laid_of_emitAll`).
-/

namespace StackMachine.Native

variable {γ φ lits : Type}

namespace Piece

/-- The branches of pieces that stand from an offset on. -/
def sites : Nat → List Piece → List (BranchSite × JumpTarget)
  | _, [] => []
  | offset, piece :: rest =>
    (piece.branch.map fun branch => ((⟨offset + branch.1, branch.2.1⟩ : BranchSite),
      branch.2.2)).toList ++ sites (offset + piece.bytes.length) rest

/-- The length of pieces. -/
def size (pieces : List Piece) : Nat := (pieces.map fun piece => piece.bytes.length).sum

variable {unit : Nat} {pieces : List Piece}

lemma size_cons (piece : Piece) (rest : List Piece) :
    size (piece :: rest) = piece.bytes.length + size rest :=
  List.sum_cons

lemma map_snd_sites (offset : Nat) (pieces : List Piece) :
    (sites offset pieces).map Prod.snd = pieces.filterMap target? := by
  induction pieces generalizing offset with
  | nil => rfl
  | cons piece rest ih =>
    rw [sites, List.map_append, ih]
    cases branches : piece.branch with
    | none => rw [List.filterMap_cons_none (by rw [target?, branches]; rfl)]; rfl
    | some branch => rw [List.filterMap_cons_some (by rw [target?, branches]; rfl)]; rfl

/-- A branch that keeps to the code it is in. -/
structure SiteFits (unit first last : Nat) (site : BranchSite) : Prop where
  first_le : first ≤ site.offset
  le_last : site.offset + 4 ≤ last
  dvd : unit ∣ first → unit ∣ site.offset
  kind : site.kind = .rel32 ∨ 4 ∣ unit

section

variable (fits : ∀ piece ∈ pieces, piece.Fits unit)
include fits

lemma dvd_size : unit ∣ size pieces := by
  induction pieces with
  | nil => exact Nat.dvd_zero unit
  | cons piece rest ih =>
    obtain ⟨here, later⟩ := List.forall_mem_cons.1 fits
    rw [size_cons]
    exact Nat.dvd_add here.dvd_length (ih later)

/-- The branches of pieces stand in their code. -/
lemma siteFits_of_mem {offset : Nat} {x : BranchSite × JumpTarget} (mem : x ∈ sites offset pieces) :
    SiteFits unit offset (offset + size pieces) x.1 := by
  induction pieces generalizing offset with
  | nil => cases mem
  | cons piece rest ih =>
    obtain ⟨here, later⟩ := List.forall_mem_cons.1 fits
    rw [size_cons]
    rcases List.mem_append.1 mem with own | other
    · rw [Option.mem_toList, Option.map_eq_some_iff] at own
      obtain ⟨⟨at_, kind, target⟩, branches, rfl⟩ := own
      obtain ⟨le, dvd, kind⟩ := here.field branches
      exact ⟨Nat.le_add_right _
        _, by dsimp only; omega, fun aligned => Nat.dvd_add aligned dvd, kind⟩
    · have fits := ih later other
      exact ⟨Nat.le_trans (Nat.le_add_right _ _) fits.first_le, by have := fits.le_last; omega,
        fun aligned => fits.dvd (Nat.dvd_add aligned here.dvd_length), fits.kind⟩

/-- No two branches share a byte. -/
lemma pairwise_sites (offset : Nat) :
    (sites offset pieces).Pairwise fun x y => x.1.offset + 4 ≤ y.1.offset := by
  induction pieces generalizing offset with
  | nil => exact .nil
  | cons piece rest ih =>
    obtain ⟨here, later⟩ := List.forall_mem_cons.1 fits
    refine List.pairwise_append.2 ⟨?_, ih later _, fun x own y other => ?_⟩
    · cases piece.branch <;> simp
    · rw [Option.mem_toList, Option.map_eq_some_iff] at own
      obtain ⟨⟨at_, kind, target⟩, branches, rfl⟩ := own
      have inside := (here.field branches).1
      have after := (siteFits_of_mem later other).first_le
      dsimp only
      omega

end

/-- Code without open branches adds nothing to a piece. -/
lemma flatMap_plain {ι : Type} [encoding : Encoding ι] {f : Piece → List UInt8}
    (closed : ∀ bytes, f { bytes } = bytes) (code : List ι) :
    ((Step.plain code).map Step.piece).flatMap f = code.flatMap encoding.bytes := by
  rw [Step.plain, List.map_map, List.flatMap_map]
  exact congrArg (List.flatMap · code) (funext fun i => closed (encoding.bytes i))

lemma sites_plain_append {ι : Type} [encoding : Encoding ι] (offset : Nat) (code : List ι)
    (rest : List Piece) :
    sites offset ((Step.plain code).map Step.piece ++ rest) =
      sites (offset + (code.flatMap encoding.bytes).length) rest := by
  induction code generalizing offset with
  | nil => rfl
  | cons i code ih =>
    rw [List.flatMap_cons, List.length_append, ← Nat.add_assoc, ← ih]
    rfl

end Piece

namespace Assembly

variable {backend : Backend γ φ lits} {unit : Nat} {a b c : Assembly lits} {op : Operation γ φ}
  {ops : List (Operation γ φ)} {target : JumpTarget} {place : Nat}

/-! ### One operation -/

/-- Pieces are appended with their branches. -/
lemma foldl_addPiece (pieces : List Piece) (a : Assembly lits) :
    (pieces.foldl addPiece a).code.offset = a.code.offset + Piece.size pieces ∧
      (pieces.foldl addPiece a).fixups.sites.toList = a.fixups.sites.toList ++ Piece.sites
        a.code.offset pieces ∧
      (pieces.foldl addPiece a).fixups.bound = a.fixups.bound := by
  induction pieces generalizing a with
  | nil => exact ⟨rfl, (List.append_nil _).symm, rfl⟩
  | cons piece rest ih =>
    obtain ⟨offset, sites, bound⟩ := ih (a.addPiece piece)
    have length : (a.addPiece piece).code.offset = a.code.offset + piece.bytes.length :=
      CodeBuffer.offset_emit _ _
    have own : (a.addPiece piece).fixups.sites.toList = a.fixups.sites.toList ++ (piece.branch.map
      fun branch =>
          ((⟨a.code.offset + branch.1, branch.2.1⟩ : BranchSite), branch.2.2)).toList ∧
        (a.addPiece piece).fixups.bound = a.fixups.bound := by
      unfold addPiece
      cases piece.branch with
      | none => exact ⟨(List.append_nil _).symm, rfl⟩
      | some branch => exact ⟨Array.toList_push, rfl⟩
    rw [List.foldl_cons]
    refine ⟨?_, ?_, bound.trans own.2⟩
    · rw [offset, length, Piece.size_cons, Nat.add_assoc]
    · rw [sites, own.1, length, Piece.sites, List.append_assoc]

/-- The code of an operation is appended, with a branch for each target. -/
structure Emits (unit : Nat) (a b : Assembly lits) (targets : List JumpTarget) : Prop where
  offset_le : a.code.offset ≤ b.code.offset
  dvd : unit ∣ a.code.offset → unit ∣ b.code.offset
  sites : ∃ new, b.fixups.sites.toList = a.fixups.sites.toList ++ new ∧
    (new.Pairwise fun x y => x.1.offset + 4 ≤ y.1.offset) ∧
    (∀ x ∈ new, Piece.SiteFits unit a.code.offset b.code.offset x.1) ∧
    ∀ target, target ∈ new.map Prod.snd ↔ target ∈ targets

lemma emits_of_bind (target : JumpTarget) :
    Emits unit a { a with fixups := a.fixups.bind target a.code.offset } [] where
  offset_le := Nat.le_refl _
  dvd := id
  sites := by
    refine ⟨[], ?_, .nil, nofun, fun _ => .rfl⟩
    rw [List.append_nil, FixupTable.bind]
    split <;> rfl

/-- Operations other than bindings are lowered. -/
lemma emit_of_ne_bind (other : ∀ target, op ≠ .bind target) : emit backend a op = (do
    let (pieces, literals) ← backend.lower a.literals op
    return pieces.foldl addPiece { a with literals }) := by
  cases op
  case bind target => exact absurd rfl (other target)
  all_goals rfl

/-- Code that is laid out: aligned, and with branches in order that share no byte. -/
structure Laid (unit : Nat) (a : Assembly lits) : Prop where
  dvd : unit ∣ a.code.offset
  apart : a.fixups.sites.toList.Pairwise fun x y => x.1.offset + 4 ≤ y.1.offset
  sites : ∀ x ∈ a.fixups.sites.toList,
    x.1.offset + 4 ≤ a.code.offset ∧ unit ∣ x.1.offset ∧ (x.1.kind = .rel32 ∨ 4 ∣ unit)

lemma Emits.laid {targets : List JumpTarget} (emits : Emits unit a b targets) (laid : a.Laid unit) :
    b.Laid unit := by
  obtain ⟨new, eq, apart, fits, -⟩ := emits.sites
  refine ⟨emits.dvd laid.dvd, ?_, ?_⟩
  · rw [eq]
    refine List.pairwise_append.2 ⟨laid.apart, apart, fun x old y mem => ?_⟩
    exact Nat.le_trans (laid.sites x old).1 (fits y mem).first_le
  · rw [eq]
    refine List.forall_mem_append.2 ⟨fun x old => ?_, fun x mem => ?_⟩
    · obtain ⟨inside, rest⟩ := laid.sites x old
      exact ⟨Nat.le_trans inside emits.offset_le, rest⟩
    · exact ⟨(fits x mem).le_last, (fits x mem).dvd laid.dvd, (fits x mem).kind⟩

/-! ### Operations in a row -/

/-- An assembly without code. -/
def start (backend : Backend γ φ lits) : Assembly lits := { literals := backend.noLiterals }

/-- The code of the operation at a place starts at an offset. -/
def Starts (backend : Backend γ φ lits) (ops : List (Operation γ φ)) (place offset : Nat) : Prop :=
  ∃ a, emitAll backend (start backend) (ops.take place) = .ok a ∧ a.code.offset = offset

/-- A branch is in the code of the operation at a place. -/
def Holds (backend : Backend γ φ lits) (ops : List (Operation γ φ)) (place : Nat)
    (site : BranchSite) :
    Prop :=
  ∃ first last, Starts backend ops place first ∧ Starts backend ops (place + 1) last ∧
    first ≤ site.offset ∧ site.offset + 4 ≤ last

lemma emitAll_append (first second : List (Operation γ φ)) :
    emitAll backend a (first ++ second) = emitAll backend a first >>= fun b =>
      emitAll backend b second :=
  List.foldlM_append

lemma emitAll_append_eq_ok {first second : List (Operation γ φ)} :
    emitAll backend a (first ++ second) = .ok c ↔
      ∃ b, emitAll backend a first = .ok b ∧ emitAll backend b second = .ok c := by
  rw [emitAll_append]
  cases emitAll backend a first with
  | error e => exact ⟨nofun, fun ⟨_, same, _⟩ => nomatch same⟩
  | ok b =>
    exact ⟨fun second => ⟨b, rfl, second⟩, fun ⟨_, same, second⟩ => by cases same; exact second⟩

lemma emitAll_snoc_eq_ok : emitAll backend a (ops ++ [op]) = .ok c ↔
    ∃ b, emitAll backend a ops = .ok b ∧ emit backend b op = .ok c := by
  have single (b : Assembly lits) : emitAll backend b [op] = emit backend b op := by
    show (emit backend b op >>= fun c => pure c) = _
    exact bind_pure _
  simp only [emitAll_append_eq_ok, single]

/-- Every beginning of operations that can be assembled can be assembled. -/
lemma exists_take (emitted : emitAll backend a ops = .ok c) (place : Nat) :
    ∃ b, emitAll backend a (ops.take place) = .ok b ∧ emitAll backend b (ops.drop place) =
      .ok c := by
  rw [← List.take_append_drop place ops] at emitted
  exact emitAll_append_eq_ok.1 emitted

/-- The operation at a place is assembled after those before it. -/
lemma exists_at (emitted : emitAll backend a ops = .ok c) (at_place : ops[place]? = some op) :
    ∃ b b', emitAll backend a (ops.take place) = .ok b ∧ emit backend b op = .ok b' ∧
      emitAll backend a (ops.take (place + 1)) = .ok b' ∧
      emitAll backend b' (ops.drop (place + 1)) = .ok c := by
  obtain ⟨b', first, rest⟩ := exists_take emitted (place + 1)
  have split : ops.take (place + 1) = ops.take place ++ [op] := by
    rw [List.take_add_one, at_place]
    rfl
  obtain ⟨b, before, here⟩ := emitAll_snoc_eq_ok.1 (split ▸ first)
  exact ⟨b, b', before, here, first, rest⟩

lemma laid_start (unit : Nat) : (start backend).Laid unit := ⟨Nat.dvd_zero unit, .nil, nofun⟩

/-! ### Lawful backends -/

section

variable (lawful : backend.Lawful unit)
include lawful

/-- What it takes to append an operation. -/
lemma emit_eq_ok (emitted : emit backend a op = .ok b) :
    (∃ target, op = .bind target ∧ b = { a with fixups := a.fixups.bind target a.code.offset }) ∨
      (∀ target, op ≠ .bind target) ∧ b.fixups.bound = a.fixups.bound ∧
      Emits unit a b op.targets := by
  by_cases binds : ∃ target, op = .bind target
  · obtain ⟨target, rfl⟩ := binds
    cases emitted
    exact .inl ⟨target, rfl, rfl⟩
  · rw [emit_of_ne_bind fun target same => binds ⟨target, same⟩] at emitted
    cases lowered : backend.lower a.literals op with
    | error e =>
      rw [lowered] at emitted
      cases emitted
    | ok r =>
      rw [lowered] at emitted
      cases emitted
      obtain ⟨offset, sites, bound⟩ := foldl_addPiece r.1 { a with literals := r.2 }
      have fits := lawful.fits lowered
      refine .inr ⟨fun target same => binds ⟨target, same⟩, bound, ?_, ?_, ?_⟩
      · rw [offset]
        exact Nat.le_add_right _ _
      · intro aligned
        rw [offset]
        exact Nat.dvd_add aligned (Piece.dvd_size fits)
      · refine ⟨_, sites, Piece.pairwise_sites fits _, fun x mem => ?_, fun target => ?_⟩
        · rw [offset]
          exact Piece.siteFits_of_mem fits mem
        · rw [Piece.map_snd_sites]
          exact lawful.targets lowered target

/-- An operation is appended with its branches. -/
lemma emits_of_emit (emitted : emit backend a op = .ok b) : Emits unit a b op.targets := by
  rcases emit_eq_ok lawful emitted with ⟨target, rfl, rfl⟩ | ⟨-, -, emits⟩
  · exact emits_of_bind target
  · exact emits

/-- An operation that cannot be appended cannot be lowered. -/
lemma emit_ne_fixup {e : CompileError} (failed : emit backend a op = .error e) (f : FixupError) :
    e ≠ .fixup f := by
  by_cases binds : ∃ target, op = .bind target
  · obtain ⟨target, rfl⟩ := binds
    cases failed
  · rw [emit_of_ne_bind fun target same => binds ⟨target, same⟩] at failed
    cases lowered : backend.lower a.literals op with
    | error e' =>
      rw [lowered] at failed
      cases failed
      exact lawful.fails lowered f
    | ok r =>
      rw [lowered] at failed
      cases failed

lemma Laid.of_emitAll (laid : a.Laid unit) (emitted : emitAll backend a ops = .ok b) :
    b.Laid unit := by
  induction ops using List.reverseRecOn generalizing b with
  | nil =>
    cases emitted
    exact laid
  | append_singleton ops op ih =>
    obtain ⟨c, before, here⟩ := emitAll_snoc_eq_ok.1 emitted
    exact (emits_of_emit lawful here).laid (ih before)

/-- What is recorded stays recorded. -/
lemma sites_subset (emitted : emitAll backend a ops = .ok b) :
    a.fixups.sites.toList ⊆ b.fixups.sites.toList := by
  induction ops using List.reverseRecOn generalizing b with
  | nil =>
    cases emitted
    exact List.Subset.refl _
  | append_singleton ops op ih =>
    obtain ⟨c, before, here⟩ := emitAll_snoc_eq_ok.1 emitted
    obtain ⟨new, eq, -⟩ := (emits_of_emit lawful here).sites
    rw [eq]
    exact List.Subset.trans (ih before) (List.subset_append_left _ _)

end

lemma Starts.append {offset : Nat} {more : List (Operation γ φ)}
    (starts : Starts backend ops place offset) (le : place ≤ ops.length) :
    Starts backend (ops ++ more) place offset := by
  rw [Starts, List.take_append_of_le_length le]
  exact starts

/-! ### Targets -/

lemma places_snoc (ops : List (Operation γ φ)) (op : Operation γ φ) :
    places (ops ++ [op]) = places ops ++ (bound? (op, ops.length)).toList := by
  rw [places_eq, places_eq, List.zipIdx_append, List.filterMap_append, Nat.zero_add,
    List.zipIdx_singleton]
  cases bound : bound? (op, ops.length) with
  | none => rw [List.filterMap_cons_none bound]; rfl
  | some _ => rw [List.filterMap_cons_some bound]; rfl

/-- Where a target is bound: where the code of the first operation that binds it starts. -/
structure Bound (backend : Backend γ φ lits) (ops : List (Operation γ φ)) (target : JumpTarget)
    (b : Assembly lits) : Prop where
  found : ∀ {place}, (places ops).lookup target = some place → place < ops.length ∧
    ∃ offset, Starts backend ops place offset ∧ b.fixups.offsetOf? target = some offset
  missing : (places ops).lookup target = none → b.fixups.offsetOf? target = none

lemma Bound.snoc (bound : Bound backend ops target b) (ne : op ≠ .bind target)
    (same : c.fixups.offsetOf? target = b.fixups.offsetOf? target) :
    Bound backend (ops ++ [op]) target c := by
  have lookup : (places (ops ++ [op])).lookup target = (places ops).lookup target := by
    rw [places_snoc, List.lookup_append]
    have skipped : (bound? (op, ops.length)).toList.lookup target = none := by
      cases op
      case bind other =>
        have ne' : target ≠ other := fun same => ne (same ▸ rfl)
        simp [bound?, List.lookup_cons, beq_false_of_ne ne']
      all_goals rfl
    rw [skipped, Option.or_none]
  refine ⟨fun found => ?_, fun missing => ?_⟩
  · obtain ⟨lt, offset, starts, at_⟩ := bound.found (lookup ▸ found)
    exact ⟨by simp; omega, offset, starts.append (Nat.le_of_lt lt), same.trans at_⟩
  · exact same.trans (bound.missing (lookup ▸ missing))

section

variable (lawful : backend.Lawful unit) (emitted : emitAll backend (start backend) ops = .ok b)
include lawful emitted

/-- Every branch is one of an operation, in its code. -/
lemma exists_of_site {x : BranchSite × JumpTarget} (mem : x ∈ b.fixups.sites.toList) :
    ∃ place op, ops[place]? = some op ∧ x.2 ∈ op.targets ∧ Holds backend ops place x.1 := by
  induction ops using List.reverseRecOn generalizing b with
  | nil =>
    cases emitted
    cases mem
  | append_singleton ops op ih =>
    obtain ⟨c, before, here⟩ := emitAll_snoc_eq_ok.1 emitted
    obtain ⟨new, eq, -, fits, targets⟩ := (emits_of_emit lawful here).sites
    rw [eq] at mem
    rcases List.mem_append.1 mem with old | added
    · obtain ⟨place, op', at_place, aims, first, last, starts, ends, range⟩ := ih before old
      have bound := (List.getElem?_eq_some_iff.1 at_place).1
      exact ⟨place, op', by rw [List.getElem?_append_left bound, at_place], aims, first, last,
        starts.append (Nat.le_of_lt bound), ends.append bound, range⟩
    · refine ⟨ops.length, op, by simp, (targets _).1 (List.mem_map_of_mem added), _, _,
        ⟨c, by simpa using before, rfl⟩, ⟨b, ?_, rfl⟩, (fits x added).first_le,
          (fits x added).le_last⟩
      rwa [List.take_of_length_le (by simp)]

/-- Every target of an operation has a branch in its code. -/
lemma exists_site (at_place : ops[place]? = some op) (aims : target ∈ op.targets) :
    ∃ site, (site, target) ∈ b.fixups.sites.toList ∧ Holds backend ops place site := by
  obtain ⟨c, c', before, here, upTo, rest⟩ := exists_at emitted at_place
  obtain ⟨new, eq, -, fits, targets⟩ := (emits_of_emit lawful here).sites
  obtain ⟨⟨site, target'⟩, added, rfl⟩ := List.mem_map.1 ((targets target).2 aims)
  refine ⟨site, sites_subset lawful rest ?_, _, _, ⟨c, before, rfl⟩, ⟨c', upTo, rfl⟩,
    (fits _ added).first_le, (fits _ added).le_last⟩
  rw [eq]
  exact List.mem_append_right _ added

lemma bound_of_emitAll (target : JumpTarget) : Bound backend ops target b := by
  induction ops using List.reverseRecOn generalizing b with
  | nil =>
    cases emitted
    exact ⟨nofun, fun _ => rfl⟩
  | append_singleton ops op ih =>
    obtain ⟨c, before, here⟩ := emitAll_snoc_eq_ok.1 emitted
    have bound := ih before
    rcases emit_eq_ok lawful here with ⟨other, rfl, rfl⟩ | ⟨other, kept, -⟩
    · by_cases same : other = target
      · subst same
        have lookup : (places (ops ++ [.bind other])).lookup other =
            ((places ops).lookup other).or (some ops.length) := by
          rw [places_snoc, List.lookup_append]
          simp [bound?]
        cases found : (places ops).lookup other with
        | some place =>
          rw [found] at lookup
          obtain ⟨lt, offset, starts, at_⟩ := bound.found found
          refine ⟨fun found' => ?_, fun missing => ?_⟩
          · cases lookup.symm.trans found'
            exact ⟨by simp; omega, offset, starts.append (Nat.le_of_lt lt),
              FixupTable.offsetOf?_bind_of_bound at_ _ _⟩
          · cases lookup.symm.trans missing
        | none =>
          rw [found] at lookup
          refine ⟨fun found' => ?_, fun missing => ?_⟩
          · cases lookup.symm.trans found'
            refine ⟨by simp, _, ⟨c, by simpa using before, rfl⟩, ?_⟩
            exact FixupTable.offsetOf?_bind_self (bound.missing found) _
          · cases lookup.symm.trans missing
      · exact bound.snoc (by rintro ⟨⟩; exact same rfl)
          (FixupTable.offsetOf?_bind_of_ne (Ne.symm same) _)
    · refine bound.snoc (other target) ?_
      rw [FixupTable.offsetOf?, FixupTable.offsetOf?, kept]

/-- When every target is bound, the branches of assembled code can be patched. -/
lemma resolvable
    (bound : ∀ op ∈ ops, ∀ target ∈ op.targets, ∃ place, (places ops).lookup target = some place) :
    b.fixups.Resolvable b.code b.fixups.sites.toList := by
  have laid := (laid_start unit).of_emitAll lawful emitted
  refine ⟨laid.apart, fun x mem => (laid.sites x mem).1, fun x mem => ?_⟩
  obtain ⟨place, op, at_place, aims, -⟩ := exists_of_site lawful emitted mem
  obtain ⟨dest, found⟩ := bound op (List.mem_of_getElem? at_place) x.2 aims
  obtain ⟨-, offset, ⟨a, before, rfl⟩, at_⟩ := (bound_of_emitAll lawful emitted x.2).found found
  refine ⟨_, at_, ?_⟩
  obtain ⟨-, aligned, kind⟩ := laid.sites x mem
  refine kind.imp_right fun four => ⟨Nat.dvd_trans four aligned, ?_⟩
  exact Nat.dvd_trans four ((laid_start unit).of_emitAll lawful before).dvd

end

end Assembly

end StackMachine.Native
