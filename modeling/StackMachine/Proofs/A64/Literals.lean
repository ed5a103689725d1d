import Mathlib.Logic.Relation
import StackMachine.A64.Lowering
import StackMachine.Proofs.Native.Lowering

/-!
# Literals on AArch64

Lowering an operation may add to the literals of a method, and never does anything else to them
(`extends_of_lower`). So what code refers to is still there in the pool of the finished method: a
pooled integer stands after the room for the doubles, at the index that the code was given
(`contents_of_place?`).
-/

namespace StackMachine

/-- A pool with more constants behind those of another one. -/
structure LiteralPool.Extends (p q : LiteralPool) : Prop where
  capacity : q.capacity = p.capacity
  entries : p.entries <+: q.entries
  fits : p.entries.length ≤ p.capacity → q.entries.length ≤ q.capacity
  nodup : p.entries.Nodup → q.entries.Nodup

namespace LiteralPool

variable {p q r : LiteralPool} {bits : UInt64} {index : Nat}

lemma Extends.refl (p : LiteralPool) : p.Extends p := ⟨rfl, List.prefix_refl _, id, id⟩

lemma Extends.trans (first : p.Extends q) (second : q.Extends r) : p.Extends r where
  capacity := second.capacity.trans first.capacity
  entries := first.entries.trans second.entries
  fits := second.fits ∘ first.fits
  nodup := second.nodup ∘ first.nodup

/-- A constant that is not found is not there. -/
lemma findIdx?_eq_none_iff : p.entries.findIdx? (· == bits) = none ↔ bits ∉ p.entries := by
  rw [List.findIdx?_eq_none_iff]
  constructor
  · intro none mem
    simpa using none bits mem
  · intro other entry mem
    exact beq_false_of_ne (ne_of_mem_of_not_mem mem other)

lemma extends_of_place? (placed : p.place? bits = some (index, q)) : p.Extends q := by
  unfold place? at placed
  split at placed
  case h_1 =>
    cases placed
    exact .refl p
  case h_2 new =>
    split at placed
    case isTrue room =>
      cases placed
      refine ⟨rfl, List.prefix_append _ _, fun _ => ?_, fun nodup => ?_⟩
      · rw [List.length_append, List.length_singleton]
        exact room
      · refine List.nodup_append.2 ⟨nodup, List.nodup_singleton _, fun entry mem bits' same => ?_⟩
        rw [List.mem_singleton.1 same]
        exact ne_of_mem_of_not_mem mem (findIdx?_eq_none_iff.1 new)
    case isFalse => cases placed

/-- A constant finds no place if it is new and the pool is full. -/
lemma place?_eq_none_iff : p.place? bits = none ↔ bits ∉ p.entries ∧
    p.capacity ≤ p.entries.length := by
  unfold place?
  split
  case h_1 index found =>
    constructor
    · intro none
      cases none
    · rintro ⟨other, -⟩
      cases found.symm.trans (findIdx?_eq_none_iff.2 other)
  case h_2 new =>
    have other : bits ∉ p.entries := findIdx?_eq_none_iff.1 new
    split
    case isTrue room => simp [room]
    case isFalse full => simp [other, Nat.le_of_not_lt full]

/-- In a pool that was empty at first, that is when it has as many constants as it has room for. -/
lemma Extends.place?_eq_none_iff {room : Nat} (start : Extends { capacity := room } p) :
    p.place? bits = none ↔ bits ∉ p.entries ∧ p.entries.length = room := by
  have fits := start.fits (Nat.zero_le _)
  rw [start.capacity] at fits
  rw [LiteralPool.place?_eq_none_iff, start.capacity]
  exact and_congr_right fun _ => ⟨fun full => Nat.le_antisymm fits full,
    fun full => Nat.le_of_eq full.symm⟩

/-- A pool that is not overfull takes as many words as it has room for. -/
lemma length_contents (fits : p.entries.length ≤ p.capacity) : p.contents.length = p.capacity := by
  rw [contents, List.length_append, List.length_replicate]
  omega

/-- Constants stand at the start of the pool, and stay when others are added. -/
lemma Extends.contents (more : p.Extends q) (stands : p.entries[index]? = some bits) :
    q.contents[index]? = some bits := by
  obtain ⟨rest, whole⟩ := more.entries
  have inside : index < p.entries.length := (List.getElem?_eq_some_iff.1 stands).1
  rw [LiteralPool.contents, ← whole, List.append_assoc, List.getElem?_append_left inside, stands]

end LiteralPool

namespace A64

open Native

variable {addresses : Addresses}

/-- Literals with more constants behind those of others. -/
structure Literals.Extends (l m : Literals) : Prop where
  doubles : l.doubles.Extends m.doubles
  ints : l.ints.Extends m.ints

namespace Literals.Extends

variable {l m n : Literals}

lemma refl (l : Literals) : l.Extends l := ⟨.refl _, .refl _⟩

lemma trans (first : l.Extends m) (second : m.Extends n) : l.Extends n :=
  ⟨first.doubles.trans second.doubles, first.ints.trans second.ints⟩

end Literals.Extends

/-! ### Lowering -/

/-- Code whose selection only adds to the literals. -/
def Adds {α : Type} (m : Select α) : Prop := ∀ l : Literals, l.Extends (m l).2

namespace Adds

variable {α β : Type}

lemma pure (a : α) : Adds (pure a) := fun l => .refl l

lemma bind {m : Select α} {f : α → Select β} (first : Adds m) (second : ∀ a, Adds (f a)) :
    Adds (m >>= f) := fun l =>
  (first l).trans (second (m l).1 (m l).2)

lemma ite {p : Prop} [Decidable p] {m n : Select α} (first : Adds m) (second : Adds n) :
    Adds (if p then m else n) := by
  split
  · exact first
  · exact second

end Adds

lemma poolInt?_eq (value : Word) (l : Literals) : poolInt? value l =
      match l.ints.place? value.toUInt64 with
      | some (index, ints) => (some (l.doubles.capacity + index), { l with ints })
      | none => (none, l) := by
  show (match l.ints.place? value.toUInt64 with
    | some (index, ints) => _
    | none => _ : Select (Option Nat)) l = _
  cases l.ints.place? value.toUInt64 <;> rfl

lemma poolDouble?_eq (value : Double) (l : Literals) : poolDouble? value l =
      match l.doubles.place? value.bits with
      | some (index, doubles) => (some index, { l with doubles })
      | none => (none, l) := by
  show (match l.doubles.place? value.bits with
    | some (index, doubles) => _
    | none => _ : Select (Option Nat)) l = _
  cases l.doubles.place? value.bits <;> rfl

lemma adds_poolInt? (value : Word) : Adds (poolInt? value) := by
  intro l
  rw [poolInt?_eq]
  cases placed : l.ints.place? value.toUInt64 with
  | none => exact .refl l
  | some r => exact ⟨.refl _, LiteralPool.extends_of_place? placed⟩

lemma adds_poolDouble? (value : Double) : Adds (poolDouble? value) := by
  intro l
  rw [poolDouble?_eq]
  cases placed : l.doubles.place? value.bits with
  | none => exact .refl l
  | some r => exact ⟨LiteralPool.extends_of_place? placed, .refl _⟩

lemma adds_loadImm (dst : Reg) (value : Word) : Adds (loadImm dst value) := by
  unfold loadImm
  refine .ite (.bind (adds_poolInt? value) fun found => ?_) (.pure _)
  cases found <;> exact .pure _

lemma adds_loadFloatImm (dst : DReg) (value : Double) : Adds (loadFloatImm dst value) := by
  unfold loadFloatImm
  refine .ite (.pure _) (.bind (adds_poolDouble? value) fun found => ?_)
  cases found <;> exact .pure _

lemma adds_srcReg (src : Src Reg) : Adds (srcReg src) := by
  cases src with
  | reg r | slot index => exact .pure _
  | imm value => exact .ite (.pure _) (.bind (adds_loadImm _ value) fun _ => .pure _)

/-! The code of operations whose second operand may be a literal. -/

section code

variable {op : IntOp} {dst left : Reg} {src right : Src Reg} {value : Word} {i : Instr}
  (l : Literals)

lemma intOp_imm (form : immForm? op dst value = some i) :
    intOp op dst (.imm value) l = ([i], l) := by
  simp only [intOp, form]
  rfl

lemma intOp_through (other : ∀ value, src = .imm value → immForm? op dst value = none) :
    intOp op dst src l = ((srcReg src l).1.1 ++ [.reg (regOpOf op) dst dst (srcReg src l).1.2],
      (srcReg src l).2) := by
  cases src with
  | reg r => rfl
  | slot index => rfl
  | imm value =>
    simp only [intOp, other value rfl]
    rfl

lemma compare_imm (fits : fitsImm value) :
    compare left (.imm value) l = ([.cmpImm left (immOf value)], l) := by
  simp only [compare, if_pos fits]
  rfl

lemma compare_negImm (wide : ¬fitsImm value) (fits : fitsNegImm value) :
    compare left (.imm value) l = ([.cmnImm left (immOf (-value))], l) := by
  simp only [compare, if_neg wide, if_pos fits]
  rfl

lemma compare_through (other : ∀ value, right = .imm value → ¬fitsImm value ∧ ¬fitsNegImm value) :
    compare left right l =
      ((srcReg right l).1.1 ++ [.cmp left (srcReg right l).1.2], (srcReg right l).2) := by
  cases right with
  | reg r => rfl
  | slot index => rfl
  | imm value =>
    simp only [compare, if_neg (other value rfl).1, if_neg (other value rfl).2]
    rfl

end code

/-- Brings a divisor into a register; a constant 0 is not left to the zero register. -/
def divisorReg (src : Src Reg) : Select (List Instr × Reg) :=
  if src = .imm 0 then pure ([Instr.mov valueScratch Reg.zr], valueScratch) else srcReg src

/-- The code for a divisor other than 0. -/
def quotientCode (remainder : Bool) (dst divisor : Reg) : List Instr :=
  if remainder then [.reg .sdiv addrScratch dst divisor, .msub dst addrScratch divisor dst]
  else [.reg .sdiv dst dst divisor]

lemma divide_eq (remainder : Bool) (dst : Reg) (src : Src Reg) (onZero : JumpTarget)
    (l : Literals) :
    divide remainder dst src onZero l =
      (Step.plain (divisorReg src l).1.1 ++ [⟨.cbz (divisorReg src l).1.2 0, some onZero⟩] ++
        Step.plain (quotientCode remainder dst (divisorReg src l).1.2), (divisorReg src l).2) := by
  unfold divide divisorReg
  by_cases zero : src = .imm 0
  · rw [if_pos zero, if_pos zero]
    rfl
  · rw [if_neg zero, if_neg zero]
    rfl

lemma adds_intOp (op : IntOp) (dst : Reg) (src : Src Reg) : Adds (intOp op dst src) := by
  intro l
  by_cases form : ∃ value i, src = .imm value ∧ immForm? op dst value = some i
  · obtain ⟨value, i, rfl, form⟩ := form
    rw [intOp_imm l form]
    exact .refl l
  · rw [intOp_through l fun value same => Option.eq_none_iff_forall_ne_some.2
      fun i is => form ⟨value, i, same, is⟩]
    exact adds_srcReg src l

lemma adds_compare (left : Reg) (right : Src Reg) : Adds (compare left right) := by
  intro l
  cases right with
  | reg r | slot index => exact .refl l
  | imm value =>
    by_cases fits : fitsImm value
    · rw [compare_imm l fits]
      exact .refl l
    · by_cases fitsNeg : fitsNegImm value
      · rw [compare_negImm l fits fitsNeg]
        exact .refl l
      · rw [compare_through l fun value' same => by cases same; exact ⟨fits, fitsNeg⟩]
        exact adds_srcReg (.imm value) l

lemma adds_divide (remainder : Bool) (dst : Reg) (src : Src Reg) (onZero : JumpTarget) :
    Adds (divide remainder dst src onZero) := by
  intro l
  rw [divide_eq]
  exact Adds.ite (.pure _) (adds_srcReg src) l

lemma adds_storeMem (width : Width) (base : Reg) (disp : Int32) (src : Src Reg) :
    Adds (storeMem width base disp src) :=
  .bind (adds_srcReg src) fun _ => .pure _

/-- Selecting the code of an operation only adds to the literals. -/
lemma adds_select (addresses : Addresses) (op : Operation Reg DReg) :
    Adds (select addresses op) := by
  cases op with
  | loadImm dst value => exact .bind (adds_loadImm dst value) fun _ => .pure _
  | loadFloatImm dst value => exact .bind (adds_loadFloatImm dst value) fun _ => .pure _
  | int op dst src => exact .bind (adds_intOp op dst src) fun _ => .pure _
  | divide remainder dst src onZero => exact adds_divide remainder dst src onZero
  | compare left right => exact .bind (adds_compare left right) fun _ => .pure _
  | store width base disp src => exact .bind (adds_storeMem width base disp src) fun _ => .pure _
  | storeSlot index src | push src => exact .bind (adds_srcReg src) fun _ => .pure _
  | _ => exact .pure _

/-- One list of literals is left by lowering operations after another one was. -/
def Leads (addresses : Addresses) : Literals → Literals → Prop :=
  Relation.ReflTransGen fun l m => ∃ op pieces, (backend addresses).lower l op = .ok (pieces, m)

lemma Leads.extends {l m : Literals} (leads : Leads addresses l m) : l.Extends m := by
  induction leads with
  | refl => exact .refl l
  | tail _ step ih =>
    obtain ⟨op, pieces, lowered⟩ := step
    cases lowered
    exact ih.trans (adds_select addresses op _)

/-- An integer that code refers to is in the pool of the finished method. -/
lemma contents_of_place? {l final : Literals} {ints : LiteralPool} {value : Word} {index : Nat}
    (reached : Leads addresses {} l) (placed : l.ints.place? value.toUInt64 = some (index, ints))
    (leads : Leads addresses { l with ints } final) :
    final.contents[l.doubles.capacity + index]? = some value.toUInt64 ∧
    l.doubles.capacity + index < maxFrameSlots := by
  have before := reached.extends
  have after := leads.extends
  have capacity : final.doubles.capacity = l.doubles.capacity := after.doubles.capacity
  have fits : final.doubles.entries.length ≤ final.doubles.capacity :=
    after.doubles.fits (before.doubles.fits (by decide))
  have stands := LiteralPool.getElem?_of_place? placed
  constructor
  · have length := LiteralPool.length_contents fits
    rw [Literals.contents, List.getElem?_append_right (by omega), length, capacity,
      Nat.add_sub_cancel_left]
    exact after.ints.contents stands
  · have doubles : l.doubles.capacity = 64 := before.doubles.capacity
    have inside := (List.getElem?_eq_some_iff.1 stands).1
    have pooled := (before.ints.trans (LiteralPool.extends_of_place? placed))
    have room := pooled.fits (by decide)
    have ints : ints.capacity = 128 := pooled.capacity
    rw [maxFrameSlots]
    omega

end A64

end StackMachine
