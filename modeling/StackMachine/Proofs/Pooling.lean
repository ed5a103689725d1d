import StackMachine.Proofs.A64.Doubles
import StackMachine.Proofs.A64.Selection
import StackMachine.Proofs.Native.Layout
import StackMachine.Proofs.X64.ElementStores

/-!
# Literal pools and the code that refers to them

Operations are appended to an assembly one after the other; one that cannot be lowered changes
nothing (`Assembly.attempt`).  Constants are only added to the literals.  So the code that loads a
constant finds it in the pool of the finished method, or puts it together itself
(`Native.literals_consistent`).
-/

namespace StackMachine

open Native

/-! ### Assemblies -/

namespace Native.Assembly

variable {γ φ lits : Type} (backend : Backend γ φ lits)

/-- Appends the code of an operation, unless it cannot be lowered. -/
def attempt (a : Assembly lits) (op : Operation γ φ) :
    Assembly lits := (a.emit backend op).toOption.getD a

/-- The assembly after some operations. -/
def after (ops : List (Operation γ φ)) : Assembly lits :=
  ops.foldl (attempt backend) { literals := backend.noLiterals }

variable {backend} {a : Assembly lits} {op : Operation γ φ}

/-- The bytes of pieces are appended. -/
lemma bytes_foldl_addPiece (pieces : List Piece) (a : Assembly lits) :
    (pieces.foldl addPiece a).code.bytes.toList = a.code.bytes.toList ++ pieces.flatMap
      Piece.bytes ∧
      (pieces.foldl addPiece a).literals = a.literals := by
  induction pieces generalizing a with
  | nil => exact ⟨(List.append_nil _).symm, rfl⟩
  | cons piece rest ih =>
    obtain ⟨bytes, literals⟩ := ih (a.addPiece piece)
    refine ⟨?_, literals⟩
    rw [List.foldl_cons, bytes, List.flatMap_cons, ← List.append_assoc]
    congr 1
    exact Array.toList_appendList ..

/-- An operation that is lowered is appended. -/
lemma emit_of_lower {pieces : List Piece} {literals : lits} (other : ∀ target, op ≠ .bind target)
    (lowered : backend.lower a.literals op = .ok (pieces, literals)) :
    ∃ t, a.emit backend op = .ok t ∧ attempt backend a op = t ∧ t.literals = literals ∧
      t.code.bytes.toList = a.code.bytes.toList ++ pieces.flatMap Piece.bytes := by
  obtain ⟨bytes, kept⟩ := bytes_foldl_addPiece pieces { a with literals }
  have emitted : a.emit backend op = .ok (pieces.foldl addPiece { a with literals }) := by
    rw [emit_of_ne_bind other, lowered]
    rfl
  exact ⟨_, emitted, by rw [attempt, emitted]; rfl, kept, bytes⟩

section related

variable {R : lits → lits → Prop} (refl : ∀ l, R l l)
  (lowers : ∀ {l op pieces m}, backend.lower l op = .ok (pieces, m) → R l m)
include refl lowers

/-- What lowering does to the literals, an operation that is appended does. -/
lemma related_attempt (a : Assembly lits) (op : Operation γ φ) :
    R a.literals (attempt backend a op).literals := by
  by_cases binds : ∃ target, op = .bind target
  · obtain ⟨target, rfl⟩ := binds
    exact refl a.literals
  · have other : ∀ target, op ≠ .bind target := fun target same => binds ⟨target, same⟩
    cases lowered : backend.lower a.literals op with
    | error e =>
      have failed : a.emit backend op = .error e := by
        rw [emit_of_ne_bind other, lowered]
        rfl
      rw [attempt, failed]
      exact refl a.literals
    | ok r =>
      obtain ⟨t, -, same, literals, -⟩ := emit_of_lower other lowered
      rw [same, literals]
      exact lowers lowered

variable (trans : ∀ {l m n}, R l m → R m n → R l n)
include trans

/-- And so do any operations. -/
lemma related_foldl (ops : List (Operation γ φ)) (a : Assembly lits) :
    R a.literals (ops.foldl (attempt backend) a).literals := by
  induction ops generalizing a with
  | nil => exact refl a.literals
  | cons op rest ih => exact trans (related_attempt refl lowers a op) (ih _)

lemma related_after (before later : List (Operation γ φ)) :
    R (after backend before).literals (after backend (before ++ later)).literals := by
  unfold after
  rw [List.foldl_append]
  exact related_foldl refl lowers trans later _

lemma related_after_attempt (before later : List (Operation γ φ)) (op : Operation γ φ) :
    R (attempt backend (after backend before) op).literals
      (after backend (before ++ op :: later)).literals := by
  unfold after
  rw [List.foldl_append, List.foldl_cons]
  exact related_foldl refl lowers trans later _

end related

end Native.Assembly

/-! ### x86-64 -/

namespace X64

open Native (Assembly)

variable (abi : Abi) (addresses : Addresses)

/-- Lowering only adds to the literals. -/
lemma extends_of_lower {pool pool' : LiteralPool} {op : Operation Reg Xmm} {pieces : List Piece}
    (lowered : (backend abi addresses).lower pool op = .ok (pieces, pool')) :
    pool.Extends pool' := by
  obtain ⟨steps, ran, -⟩ := exists_steps_of_lower lowered
  unfold lower at ran
  split at ran
  · split at ran
    · cases ran
      exact .refl _
    · split at ran
      · next placed =>
        cases ran
        exact LiteralPool.extends_of_place? placed
      · cases ran
  · cases ran
    exact .refl _

/-- The code that loads a literal from its address. -/
def literalCode (dst : Xmm) (address : Word) :
    List Instr := [.moveConst scratch address, .movsdRM dst (mem scratch 0)]

lemma exec_literalCode (s : Cpu) (dst : Xmm) (address : Word) :
    ∃ t, execAll Instr.exec s (literalCode dst address) = .ok t ∧
    t.xmms dst = s.read .word address := by
  obtain ⟨flags, run⟩ := exec_moveConst s scratch address
  let t := (s.setReg scratch address).setFlags flags
  have read : t.load .word (mem scratch 0) = s.read .word address := by
    rw [Cpu.load, address_base, Cpu.setFlags_regs, Cpu.setReg_regs, Function.update_self]
    rfl
  refine ⟨t.setXmm dst (t.load .word (mem scratch 0)), execAll_cons run _, ?_⟩
  rw [read]
  exact Function.update_self ..

/-- How a double is lowered: zero needs no literal. -/
lemma lower_loadFloatImm (pool : LiteralPool) (dst : Xmm) (value : Double) :
    (backend abi addresses).lower pool (.loadFloatImm dst value) =
      if value.bits = 0 then .ok ((Step.plain [Instr.xorpd dst dst]).map Step.piece, pool) else
        match pool.place? value.bits with
        | some (index, pool) =>
          .ok ((Step.plain (literalCode dst (addresses.literals + 8 * Word.ofNat index))).map
            Step.piece, pool)
        | none => .error .constPoolFull := by
  unfold backend lower
  dsimp only
  split
  · rfl
  · cases pool.place? value.bits <;> rfl

/-- A double is loaded in an assembly of which a pool comes: it cannot be loaded just if it is a new
literal and there are 256 of them, and the code for it loads a literal of the pool with its bits,
unless it is zero. -/
structure LoadsDouble (a : Assembly LiteralPool) (pool : LiteralPool) (dst : Xmm) (value : Double) :
    Prop where
  distinct : a.literals.entries.Nodup
  kept : a.literals.entries <+: pool.entries
  fails : ∀ e, a.emit (backend abi addresses) (.loadFloatImm dst value) = .error e ↔
    e = .constPoolFull ∧ value.bits ≠ 0 ∧ value.bits ∉ a.literals.entries ∧
    a.literals.entries.length = 256
  loads : ∀ t, a.emit (backend abi addresses) (.loadFloatImm dst value) = .ok t → ∃ code,
    t.code.bytes.toList = a.code.bytes.toList ++ encodeAll code ∧
    (value.bits = 0 ∧ code = [.xorpd dst dst] ∨
        ∃ index, code = literalCode dst (addresses.literals + 8 * Word.ofNat index) ∧
          ((backend abi addresses).literalWords pool)[index]? = some value.bits ∧
          ∀ s : Cpu, (∀ i word, ((backend abi addresses).literalWords pool)[i]? = some word →
              s.read .word (addresses.literals + 8 * Word.ofNat i) = word.toInt64) →
            ∃ u, execAll Instr.exec s code = .ok u ∧ u.xmms dst = value.toWord)

variable {abi addresses} {a : Assembly LiteralPool} {pool : LiteralPool} {dst : Xmm}
  {value : Double}

/-- Doubles are loaded from a pool to which only literals have been added since. -/
lemma loadsDouble (start : (backend abi addresses).noLiterals.Extends a.literals)
    (rest : (Assembly.attempt (backend abi addresses) a (.loadFloatImm dst value)).literals.Extends
      pool) :
    LoadsDouble abi addresses a pool dst value := by
  have lowers := lower_loadFloatImm abi addresses a.literals dst value
  have other (target : JumpTarget) : (.loadFloatImm dst value : Operation Reg Xmm) ≠ .bind target :=
    nofun
  have distinct : a.literals.entries.Nodup := start.nodup .nil
  have kept := ((Assembly.related_attempt .refl (extends_of_lower abi addresses) a _).trans
    rest).entries
  by_cases zero : value.bits = 0
  · rw [if_pos zero] at lowers
    obtain ⟨t, emitted, -, -, bytes⟩ := Assembly.emit_of_lower other lowers
    rw [Piece.flatMap_plain fun _ => rfl] at bytes
    refine ⟨distinct, kept, fun e => ?_, fun t' same => ?_⟩
    · rw [emitted]
      exact ⟨nofun, fun ⟨_, nonzero, _⟩ => absurd zero nonzero⟩
    · cases emitted.symm.trans same
      exact ⟨_, bytes, .inl ⟨zero, rfl⟩⟩
  rw [if_neg zero] at lowers
  cases placed : a.literals.place? value.bits with
  | none =>
    rw [placed] at lowers
    have failed : a.emit (backend abi addresses) (.loadFloatImm dst value) =
      .error .constPoolFull := by
      rw [Assembly.emit_of_ne_bind other, lowers]
      rfl
    have full := start.place?_eq_none_iff.1 placed
    refine ⟨distinct, kept, fun e => ?_, fun t same => ?_⟩
    · rw [failed]
      exact ⟨fun same => ⟨by cases same; rfl, zero, full⟩, fun ⟨same, _⟩ => by rw [same]⟩
    · cases failed.symm.trans same
  | some r =>
    rw [placed] at lowers
    obtain ⟨t, emitted, attempted, literals, bytes⟩ := Assembly.emit_of_lower other lowers
    rw [Piece.flatMap_plain fun _ => rfl] at bytes
    rw [attempted, literals] at rest
    have stands : pool.contents[r.1]? = some value.bits :=
      rest.contents (LiteralPool.getElem?_of_place? placed)
    refine ⟨distinct, kept, fun e => ?_, fun t' same => ?_⟩
    · rw [emitted]
      exact ⟨nofun, fun ⟨_, _,
        full⟩ => by cases (start.place?_eq_none_iff.2 full).symm.trans placed⟩
    · cases emitted.symm.trans same
      refine ⟨_, bytes, .inr ⟨r.1, rfl, stands, fun s holds => ?_⟩⟩
      obtain ⟨u, run, result⟩ := exec_literalCode s dst (addresses.literals + 8 * Word.ofNat r.1)
      exact ⟨u, run, result.trans (holds _ _ stands)⟩

end X64

/-! ### AArch64 -/

namespace A64

open Native (Assembly)

variable {addresses : Addresses} {a : Assembly Literals} {l final : Literals} {value : Double}
  {index : Nat}

lemma leads_of_lower {m : Literals} {op : Operation Reg DReg} {pieces : List Piece}
    (lowered : (backend addresses).lower l op = .ok (pieces, m)) : Leads addresses l m :=
  .single ⟨op, pieces, lowered⟩

/-- How a double is loaded: zero from the zero register, others from the pool, or from a general
register if the pool is full. -/
lemma loadFloatImm_eq (dst : DReg) (value : Double) (l : Literals) :
    loadFloatImm dst value l =
      if value.bits = 0 then ([.fmovFromGpr dst Reg.zr], l) else
        match l.doubles.place? value.bits with
        | some (index, doubles) =>
          ([loadPoolBase, .ldrD dst addrScratch (slotOffset index)], { l with doubles })
        | none => (moveConst valueScratch value.toWord ++ [.fmovFromGpr dst valueScratch], l) := by
  unfold loadFloatImm
  split
  · rfl
  · have pooled := poolDouble?_eq value l
    have run (f : Option Nat → Select (List Instr)) : (poolDouble? value >>= f) l =
        f (poolDouble? value l).1 (poolDouble? value l).2 := rfl
    rw [run, pooled]
    cases l.doubles.place? value.bits <;> rfl

/-- A double that code refers to is in the pool of the finished method. -/
lemma contents_of_placeDouble? {doubles : LiteralPool} (reached : Leads addresses {} l)
    (placed : l.doubles.place? value.bits = some (index, doubles))
    (leads : Leads addresses { l with doubles } final) :
    final.contents[index]? = some value.bits ∧ index < 64 := by
  have before := reached.extends.doubles.trans (LiteralPool.extends_of_place? placed)
  have after := leads.extends.doubles
  have stands := after.contents (LiteralPool.getElem?_of_place? placed)
  have length := LiteralPool.length_contents (after.fits (before.fits (by decide)))
  have capacity : final.doubles.capacity = 64 := after.capacity.trans before.capacity
  have inside : index < final.doubles.contents.length := (List.getElem?_eq_some_iff.1 stands).1
  exact ⟨(List.getElem?_append_left inside).trans stands, by omega⟩

/-- A move of bits into a float register. -/
lemma perform_fmovFromGpr (s : Cpu) (dst : DReg) (src : Reg) :
    (Instr.fmovFromGpr dst src).perform s = some (s.setDouble dst.named (s.get src)) := by
  have stands : (Instr.fmovFromGpr dst src).doubleForm? = some (.moveIn dst.named src) := rfl
  rw [Instr.perform_eq stands, DoubleForm.exec]

/-- A load of a float register at a place above a base register. -/
lemma perform_ldrD (s : Cpu) (dst : DReg) (rn : Reg) (reached : index < maxFrameSlots) :
    (Instr.ldrD dst rn (slotOffset index)).perform s =
      some (s.setDouble dst.named (s.memory.readWord (s.regs rn + Word.ofNat (8 * index)))) := by
  rw [Instr.perform_eq rfl, slotOffset_field reached, DoubleForm.exec, if_pos rfl]

/-- A double is loaded, perhaps from the pool of the finished method. -/
lemma perform_loadFloatImm (reached : Leads addresses {} l) (dst : DReg) (value : Double)
    (leads : Leads addresses (loadFloatImm dst value l).2 final) {s : Cpu}
    (pool : s.HoldsPool final) :
    ∃ t, execAll Instr.perform s (loadFloatImm dst value l).1 = some t ∧
    t.doubles dst.named = value.toWord := by
  rw [loadFloatImm_eq] at leads ⊢
  split at leads
  · next zero =>
    rw [if_pos zero]
    refine ⟨_, execAll_cons (perform_fmovFromGpr s dst _) _, ?_⟩
    rw [Cpu.setDouble_doubles, Function.update_self, Cpu.get_zr, Double.toWord, zero]
    rfl
  · next nonzero =>
    rw [if_neg nonzero]
    cases placed : l.doubles.place? value.bits with
    | none =>
      have general : valueScratch ≠ Reg.zr := by decide
      have moved := execAll_perform (exec_moveConst general value.toWord s)
      refine ⟨_, (execAll_append_of_eq moved _).trans
        (execAll_cons (perform_fmovFromGpr _ dst _) _), ?_⟩
      rw [Cpu.setDouble_doubles, Function.update_self, Cpu.get_of_ne (by decide), Cpu.setReg_regs,
        Function.update_self]
    | some r =>
      rw [placed] at leads
      obtain ⟨stands, inside⟩ := contents_of_placeDouble? reached placed leads
      refine ⟨_, (execAll_cons (Instr.perform_of_exec (exec_loadPoolBase s)) _).trans
        (execAll_cons (perform_ldrD _ dst addrScratch (inside.trans (by decide))) _), ?_⟩
      rw [Cpu.setDouble_doubles, Function.update_self, Cpu.setReg_regs, Function.update_self]
      exact pool _ _ stands

/-- A double is loaded in an assembly of which literals come: never in vain, and from a literal with
its bits unless it is zero or there are 64 others; its bits are what the code leaves. -/
def LoadsDouble (addresses : Addresses) (a : Assembly Literals) (final : Literals) (dst : DReg)
    (value : Double) : Prop :=
  ∃ t code, a.emit (backend addresses) (.loadFloatImm dst value) = .ok t ∧
    t.code.bytes.toList = a.code.bytes.toList ++ encodeAll code ∧
    (value.bits = 0 ∧ code = [.fmovFromGpr dst Reg.zr] ∨
      (∃ index < 64, ((backend addresses).literalWords final)[index]? = some value.bits ∧
        code = [loadPoolBase, .ldrD dst addrScratch (slotOffset index)]) ∨
      value.bits ∉ a.literals.doubles.entries ∧ a.literals.doubles.entries.length = 64 ∧
        code = moveConst valueScratch value.toWord ++ [.fmovFromGpr dst valueScratch]) ∧
    ∀ s : Cpu, s.HoldsPool final → ∃ u, execAll Instr.perform s code = some u ∧
    u.doubles dst.named = value.toWord

/-- An integer is loaded: never in vain, and from a literal behind the doubles unless two moves do
or there are 128 others; it is what the code leaves. -/
def LoadsInt (addresses : Addresses) (a : Assembly Literals) (final : Literals) (dst : Reg)
    (value : Word) : Prop :=
  ∃ t code, a.emit (backend addresses) (.loadImm dst value) = .ok t ∧
    t.code.bytes.toList = a.code.bytes.toList ++ encodeAll code ∧
    ((∃ index < 128, ((backend addresses).literalWords final)[64 + index]? = some value.toUInt64 ∧
        code = [loadPoolBase, .ldr dst addrScratch (slotOffset (64 + index))]) ∨
      (moveConstLength value ≤ 2 ∨ value.toUInt64 ∉ a.literals.ints.entries ∧
        a.literals.ints.entries.length = 128) ∧
        code = moveConst dst value) ∧
    ∀ s : Cpu, s.HoldsPool final → ∃ u, execAll Instr.exec s code = some u ∧ u.regs dst = value

lemma loadsDouble {dst : DReg} (reached : Leads addresses {} a.literals)
    (leads : Leads addresses
      (Assembly.attempt (backend addresses) a (.loadFloatImm dst value)).literals final) :
    LoadsDouble addresses a final dst value := by
  have other (target : JumpTarget) : (.loadFloatImm dst value : Operation Reg DReg) ≠
    .bind target := nofun
  have lowered : (backend addresses).lower a.literals (.loadFloatImm dst value) =
      .ok ((Step.plain (loadFloatImm dst value a.literals).1).map Step.piece,
        (loadFloatImm dst value a.literals).2) :=
    rfl
  obtain ⟨t, emitted, attempted, literals, bytes⟩ := Assembly.emit_of_lower other lowered
  rw [attempted, literals] at leads
  rw [Piece.flatMap_plain fun _ => rfl] at bytes
  refine ⟨t, _, emitted, bytes, ?_, fun s pool => perform_loadFloatImm reached dst value leads pool⟩
  rw [loadFloatImm_eq] at leads ⊢
  split at leads
  · next zero =>
    rw [if_pos zero]
    exact .inl ⟨zero, rfl⟩
  · next nonzero =>
    rw [if_neg nonzero]
    cases placed : a.literals.doubles.place? value.bits with
    | none =>
      obtain ⟨new, full⟩ := reached.extends.doubles.place?_eq_none_iff.1 placed
      exact .inr (.inr ⟨new, full, rfl⟩)
    | some r =>
      rw [placed] at leads
      obtain ⟨stands, inside⟩ := contents_of_placeDouble? reached placed leads
      exact .inr (.inl ⟨r.1, inside, stands, rfl⟩)

lemma loadsInt {dst : Reg} {value : Word} (general : dst ≠ Reg.zr)
    (reached : Leads addresses {} a.literals)
    (leads : Leads addresses (Assembly.attempt (backend addresses) a (.loadImm dst value)).literals
      final) :
    LoadsInt addresses a final dst value := by
  have other (target : JumpTarget) : (.loadImm dst value : Operation Reg DReg) ≠ .bind target :=
    nofun
  have lowered : (backend addresses).lower a.literals (.loadImm dst value) =
      .ok ((Step.plain (loadImm dst value a.literals).1).map Step.piece,
        (loadImm dst value a.literals).2) := rfl
  obtain ⟨t, emitted, attempted, literals, bytes⟩ := Assembly.emit_of_lower other lowered
  rw [attempted, literals] at leads
  rw [Piece.flatMap_plain fun _ => rfl] at bytes
  refine ⟨t, _, emitted, bytes, ?_, fun s pool => ?_⟩
  · rcases loadImm_cases dst value a.literals with
      ⟨unpooled, direct⟩ | ⟨index, ints, placed, pooled⟩
    · rw [reached.extends.ints.place?_eq_none_iff] at unpooled
      exact .inr ⟨unpooled, congrArg Prod.fst direct⟩
    · rw [pooled] at leads ⊢
      have doubles : a.literals.doubles.capacity = 64 := reached.extends.doubles.capacity
      obtain ⟨stands, -⟩ := contents_of_place? reached placed leads
      have more := reached.extends.ints.trans (LiteralPool.extends_of_place? placed)
      have inside := (List.getElem?_eq_some_iff.1 (LiteralPool.getElem?_of_place? placed)).1
      have room := (more.fits (by decide)).trans more.capacity.le
      rw [doubles] at stands ⊢
      exact .inl ⟨index, inside.trans_le room, stands, rfl⟩
  · obtain ⟨u, run, result, -⟩ := exec_loadImm general reached s value leads pool
    exact ⟨u, run, result⟩

end A64

/-! ### Both targets -/

/-- **Literal pools agree with the code.**  Operations are appended one after the other, in any
order.

On x86-64 literals stay as they are and are all different; a double cannot be loaded just if it is
not zero, not yet among the literals, and there are 256 of these; and if it can be loaded, the code
does so from a literal with its bits in the pool of the finished method, unless it is zero.

On AArch64 no operation fails.  Both halves of the literals stay as they are, and the literals in
each are all different; a double or an integer is loaded from a literal with its bits in the pool of
the finished method, or else by moves, if that is short or if the half has its 64 doubles or 128
integers; and its bits are what the code leaves. -/
theorem Native.literals_consistent (addresses : Addresses) :
    (∀ abi before later dst value,
        X64.LoadsDouble abi addresses (Assembly.after (X64.backend abi addresses) before)
          (Assembly.after (X64.backend abi addresses)
            (before ++ .loadFloatImm dst value :: later)).literals dst value) ∧
    (∀ before op, ∃ t, (Assembly.after (A64.backend addresses) before).emit (A64.backend addresses)
      op = .ok t) ∧
    (∀ before later, ∃ l m, l = (Assembly.after (A64.backend addresses) before).literals ∧
      m = (Assembly.after (A64.backend addresses) (before ++ later)).literals ∧
      l.doubles.entries.Nodup ∧ l.ints.entries.Nodup ∧ l.doubles.entries <+: m.doubles.entries ∧
      l.ints.entries <+: m.ints.entries) ∧
    (∀ before later dst value,
        A64.LoadsDouble addresses (Assembly.after (A64.backend addresses) before)
          (Assembly.after (A64.backend addresses)
            (before ++ .loadFloatImm dst value :: later)).literals dst value) ∧
    ∀ before later dst value, dst ≠ A64.Reg.zr →
        A64.LoadsInt addresses (Assembly.after (A64.backend addresses) before)
        (Assembly.after (A64.backend addresses) (before ++ .loadImm dst value :: later)).literals
          dst value := by
  have leads (before later : List (Operation A64.Reg A64.DReg)) := Assembly.related_after
    (R := A64.Leads addresses) (fun _ => .refl) A64.leads_of_lower .trans before later
  have attempted (before later : List (Operation A64.Reg A64.DReg))
    (op : Operation A64.Reg A64.DReg) :=
    Assembly.related_after_attempt (R := A64.Leads addresses) (fun _ => .refl) A64.leads_of_lower
      .trans before later op
  refine ⟨fun abi before later dst value => ?_, fun before op => ?_, fun before later => ?_,
    fun before later dst value => ?_, fun before later dst value general => ?_⟩
  · exact X64.loadsDouble (Assembly.related_after .refl (X64.extends_of_lower abi addresses) .trans
      [] before) (Assembly.related_after_attempt .refl (X64.extends_of_lower abi addresses) .trans
        before later _)
  · cases op <;> exact ⟨_, rfl⟩
  · have start := (leads [] before).extends
    have more := (leads before later).extends
    exact ⟨_, _, rfl, rfl, start.doubles.nodup .nil, start.ints.nodup .nil, more.doubles.entries,
      more.ints.entries⟩
  · exact A64.loadsDouble (leads [] before) (attempted before later _)
  · exact A64.loadsInt general (leads [] before) (attempted before later _)

/-- Four moves would be needed for this word, so it is kept as a literal, which a later word does
not disturb. -/
theorem Native.literals_consistent_wide :
    A64.Reg.x0 ≠ A64.Reg.zr ∧ A64.LoadsInt {} (Assembly.after (A64.backend {}) [])
        (Assembly.after (A64.backend {})
        [.loadImm .x0 0x0123456789ABCDEF, .loadImm .x1 0x0FEDCBA987654321]).literals .x0
          0x0123456789ABCDEF := by
  have general : A64.Reg.x0 ≠ A64.Reg.zr := by decide
  exact ⟨general, (Native.literals_consistent {}).2.2.2.2 [] [.loadImm .x1 0x0FEDCBA987654321] _ _
    general⟩

end StackMachine
