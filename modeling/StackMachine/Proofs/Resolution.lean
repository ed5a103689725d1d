import Mathlib.Data.List.Induction
import StackMachine.Proofs.Patching

/-!
# Resolving branches

Which tables of branches can be resolved, and what resolving does to the code.  A branch can be
patched when its target is bound, its field lies inside the code and its displacement fits the field
(`FixupTable.Patchable`).  If no two fields share a byte, all branches are patched exactly when each
of them can be; otherwise those before the first that cannot be are (`FixupTable.resolves_exactly`,
from `FixupTable.resolveSites_spec`).  A patched branch goes to the offset that its target was first
bound to, and no bit outside the fields of the patched branches changes (`FixupTable.Patches`).
-/

namespace StackMachine

/-! ### Bits of code -/

namespace CodeBuffer

variable {b patched : CodeBuffer} {at_ : Nat} {value : UInt32}

/-- A bit of the code.  Bytes are in order, the low bit of each first. -/
def bit? (b : CodeBuffer) (place : Nat) : Option Bool :=
  b.bytes[place / 8]?.map fun byte => byte.toNat.testBit (place % 8)

/-- The bits of a 32-bit field are those of the number that is read there. -/
lemma bit?_of_read32? (reads : b.read32? at_ = some value) {i : Nat} (inField : i < 32) :
    b.bit? (8 * at_ + i) = some (value.toNat.testBit i) := by
  unfold read32? at reads
  split at reads
  case h_2 => cases reads
  case h_1 x y z w first second third fourth =>
    obtain rfl : word32 x y z w = value := Option.some.inj reads
    have byte {j : Nat} {c : UInt8} (stands : b.bytes[at_ + j]? = some c) (here : i / 8 = j)
        (digit : c.toNat = (word32 x y z w).toNat / 2 ^ (8 * j) % 2 ^ 8) :
        b.bit? (8 * at_ + i) = some ((word32 x y z w).toNat.testBit i) := by
      have place : (8 * at_ + i) / 8 = at_ + j := by omega
      have offset : (8 * at_ + i) % 8 = i % 8 := by omega
      have inByte : i % 8 < 8 := Nat.mod_lt _ (by decide)
      have whole : i % 8 + 8 * j = i := by omega
      rw [bit?, place, stands, Option.map_some, offset, digit, Nat.testBit_mod_two_pow,
        Nat.testBit_div_two_pow, whole]
      simp [inByte]
    have sum := toNat_word32 x y z w
    have := x.toNat_lt
    have := y.toNat_lt
    have := z.toNat_lt
    have := w.toNat_lt
    obtain here | here | here | here : i / 8 = 0 ∨ i / 8 = 1 ∨ i / 8 = 2 ∨ i / 8 = 3 := by omega
    · exact byte first here (by omega)
    · exact byte second here (by omega)
    · exact byte third here (by omega)
    · exact byte fourth here (by omega)

/-- Bits outside a field that is patched stay. -/
lemma bit?_of_patch32?_of_apart (patches : b.patch32? at_ value = some patched) {place : Nat}
    (apart : place < 8 * at_ ∨ 8 * at_ + 32 ≤ place) : patched.bit? place = b.bit? place := by
  unfold patch32? at patches
  split at patches
  · cases patches
    have length : (bytes32 value).length = 4 := rfl
    rw [bit?, bit?, getElem?_overwrite _ _ _ _ (by omega)]
  · cases patches

/-- A field outside the code cannot be read. -/
lemma read32?_of_outside (outside : ¬at_ + 4 ≤ b.offset) : b.read32? at_ = none := by
  have patches : b.patch32? at_ 0 = none := if_neg outside
  have same := b.isSome_patch32? at_ 0
  rw [patches] at same
  exact Option.isSome_eq_false_iff.1 same.symm |> Option.isNone_iff_eq_none.1

end CodeBuffer

/-! ### Fields of displacements -/

namespace SiteKind

variable {offset dest : Nat}

/-- Where a displacement starts to count, in bytes after the site. -/
def origin : SiteKind → Nat
  | .rel32 => 4
  | .imm26 | .imm19 => 0

/-- The bytes that a displacement counts in. -/
def unit : SiteKind → Nat
  | .rel32 => 1
  | .imm26 | .imm19 => 4

/-- The first bit of a displacement, in the 32 bits at its site. -/
def firstBit : SiteKind → Nat
  | .rel32 | .imm26 => 0
  | .imm19 => 5

/-- The number of bits of a displacement. -/
def width : SiteKind → Nat
  | .rel32 => 32
  | .imm26 => 26
  | .imm19 => 19

/-- The displacement between two offsets is a signed number that fits the field. -/
def Fits (kind : SiteKind) (offset dest : Nat) : Prop :=
  ∃ n : Int, (dest : Int) - (offset + kind.origin) = kind.unit * n ∧
    -2 ^ (kind.width - 1) ≤ n ∧ n < 2 ^ (kind.width - 1)

lemma fits_rel32 :
    Fits .rel32 offset dest ↔ -2 ^ 31 ≤ (dest : Int) - (offset + 4) ∧
    (dest : Int) - (offset + 4) < 2 ^ 31 := by
  constructor
  · rintro ⟨n, same, inRange⟩
    have value : (dest : Int) - (offset + 4) = n := same.trans (Int.one_mul n)
    rw [value]
    exact inRange
  · exact fun inRange => ⟨_, (Int.one_mul _).symm, inRange⟩

/-- A displacement in instructions, between places of instructions. -/
lemma fits_counted {kind : SiteKind} (counted : kind ≠ .rel32)
    (reaches : kind.Reaches offset dest) :
    kind.Fits offset dest ↔ BranchSite.InField kind (((dest : Int) - offset).tdiv 4) := by
  obtain ⟨start, finish⟩ := reaches.resolve_left counted
  have whole : (4 : Int) ∣ (dest : Int) - offset := by omega
  have measure : (kind.origin : Int) = 0 ∧ (kind.unit : Int) = 4 ∧
    kind.width = BranchSite.fieldBits kind := by
    cases kind with
    | rel32 => exact absurd rfl counted
    | imm26 | imm19 => exact ⟨rfl, rfl, rfl⟩
  have quotient : (dest : Int) - offset = 4 * ((dest : Int) - offset).tdiv 4 :=
    (Int.mul_tdiv_cancel' whole).symm
  unfold Fits BranchSite.InField
  rw [measure.1, measure.2.1, measure.2.2, Int.add_zero]
  constructor
  · rintro ⟨n, same, inRange⟩
    have value : ((dest : Int) - offset).tdiv 4 = n := by omega
    rwa [value]
  · exact fun inRange => ⟨_, quotient, inRange⟩

end SiteKind

namespace BranchSite

variable {site : BranchSite} {code code' : CodeBuffer} {dest : Nat} {i : Nat} {inst value : UInt32}

/-- A bit of the code belongs to the displacement of a site. -/
def Covers (site : BranchSite) (place : Nat) : Prop :=
  8 * site.offset + site.kind.firstBit ≤ place ∧
    place < 8 * site.offset + site.kind.firstBit + site.kind.width

/-- Two sites share no byte. -/
def Apart (a b : BranchSite) : Prop := a.offset + 4 ≤ b.offset ∨ b.offset + 4 ≤ a.offset

instance (a b : BranchSite) : Decidable (a.Apart b) := inferInstanceAs (Decidable (_ ∨ _))

/-- The field of a site is inside the code, and the displacement to a destination fits it. -/
def Patchable (site : BranchSite) (code : CodeBuffer) (dest : Nat) : Prop :=
  site.offset + 4 ≤ code.offset ∧ site.kind.Fits site.offset dest

/-- Bits of an instruction outside its displacement stay when the displacement is replaced. -/
lemma testBit_placeField {kind : SiteKind} (counted : kind ≠ .rel32) (inst : UInt32)
    {field : UInt32} (small : field.toNat < 2 ^ kind.width) (inWord : i < 32)
    (outside : i < kind.firstBit ∨ kind.firstBit + kind.width ≤ i) :
    (placeField kind inst field).toNat.testBit i = inst.toNat.testBit i := by
  have none_above {k n : Nat} (below : n < 2 ^ k) (above : k ≤ i) : n.testBit i = false :=
    Nat.testBit_lt_two_pow (Nat.lt_of_lt_of_le below (Nat.pow_le_pow_right (by decide) above))
  cases kind with
  | rel32 => exact absurd rfl counted
  | imm26 =>
    have above : 26 ≤ i := by simpa [SiteKind.firstBit, SiteKind.width] using outside
    have mask : ∀ j ∈ List.range' 26 6, (~~~(0x03FFFFFF : UInt32)).toNat.testBit j = true := by
      decide
    have kept := mask i (by simp only [List.mem_range'_1]; omega)
    show (inst &&& ~~~0x03FFFFFF ||| field).toNat.testBit i = _
    rw [UInt32.toNat_or, UInt32.toNat_and, Nat.testBit_or, Nat.testBit_and, kept,
      none_above small above]
    simp
  | imm19 =>
    have apart : i < 5 ∨ 24 ≤ i := by simpa [SiteKind.firstBit, SiteKind.width] using outside
    have mask : ∀ j ∈ List.range 5 ++ List.range' 24 8,
      (~~~((0x7FFFF : UInt32) <<< 5)).toNat.testBit j = true := by
      decide
    have kept := mask i (by simp only [List.mem_append, List.mem_range, List.mem_range'_1]; omega)
    have shifted : (field <<< 5).toNat.testBit i = false := by
      rw [UInt32.toNat_shiftLeft]
      have bound : field.toNat <<< (UInt32.toNat 5 % 32) < 2 ^ 24 := by
        show field.toNat <<< 5 < 2 ^ 24
        rw [Nat.shiftLeft_eq]
        have : field.toNat < 2 ^ 19 := small
        omega
      rw [Nat.mod_eq_of_lt (Nat.lt_trans bound (by decide))]
      rcases apart with low | high
      · show (field.toNat <<< 5).testBit i = false
        rw [Nat.testBit_shiftLeft]
        simp [Nat.not_le.2 low]
      · exact none_above bound high
    show (inst &&& ~~~((0x7FFFF : UInt32) <<< 5) ||| field <<< 5).toNat.testBit i = _
    rw [UInt32.toNat_or, UInt32.toNat_and, Nat.testBit_or, Nat.testBit_and, kept, shifted]
    simp

/-- A patched site has a new displacement and is otherwise as before. -/
structure Patches (site : BranchSite) (code : CodeBuffer) (dest : Nat) (code' : CodeBuffer) :
    Prop where
  offset : code'.offset = code.offset
  lands : site.destination? code' = some (dest : Int)
  /-- Fields that share no byte with the site are read as before. -/
  reads : ∀ j, j + 4 ≤ site.offset ∨ site.offset + 4 ≤ j → code'.read32? j = code.read32? j
  bits : ∀ place, ¬site.Covers place → code'.bit? place = code.bit? place

/-- What writing a number with the right displacement over a field comes to. -/
lemma patches_of_patch32? (reads : code.read32? site.offset = some inst)
    (writes : code.patch32? site.offset value = some code')
    (aims : site.offset + site.kind.displacement value = (dest : Int))
    (keeps : ∀ i < 32, i < site.kind.firstBit ∨ site.kind.firstBit + site.kind.width ≤ i →
      value.toNat.testBit i = inst.toNat.testBit i) : site.Patches code dest code' where
  offset := CodeBuffer.offset_of_patch32? writes
  lands := by
    rw [destination?, CodeBuffer.read32?_of_patch32? writes, Option.map_some, aims]
  reads j apart := CodeBuffer.read32?_of_patch32?_of_apart writes (by omega)
  bits place outside := by
    by_cases near : 8 * site.offset ≤ place ∧ place < 8 * site.offset + 32
    · obtain ⟨i, rfl⟩ := Nat.exists_eq_add_of_le near.1
      have inWord : i < 32 := by omega
      have notField : i < site.kind.firstBit ∨ site.kind.firstBit + site.kind.width ≤ i := by
        unfold Covers at outside
        omega
      rw [CodeBuffer.bit?_of_read32? (CodeBuffer.read32?_of_patch32? writes) inWord,
        CodeBuffer.bit?_of_read32? reads inWord, keeps i inWord notField]
    · exact CodeBuffer.bit?_of_patch32?_of_apart writes (by omega)

/-- A site inside the code is patched exactly when the displacement fits. -/
lemma patch_ne_outOfRange_iff (inside : site.offset + 4 ≤ code.offset)
    (reaches : site.kind.Reaches site.offset dest) :
    site.patch code dest ≠ .error (.outOfRange site.offset dest) ↔
    site.kind.Fits site.offset dest := by
  obtain ⟨offset, kind⟩ := site
  dsimp only at inside reaches ⊢
  obtain ⟨inst, reads⟩ := code.exists_read32? inside
  have written (value : UInt32) :
      (code.patch32? offset value).elim (Except.error (FixupError.badSite offset)) .ok ≠
        .error (.outOfRange offset dest) := by
    obtain ⟨code', writes⟩ := code.exists_patch32? inside value
    rw [writes]
    exact nofun
  by_cases counted : kind = .rel32
  · subst counted
    rw [patch_rel32, SiteKind.fits_rel32]
    split
    · next inRange => exact iff_of_true (written _) inRange
    · next tooFar => exact iff_of_false (fun ne => ne rfl) tooFar
  · rw [patch_counted counted reads, SiteKind.fits_counted counted reaches]
    split
    · next inField => exact iff_of_true (written _) inField
    · next tooFar => exact iff_of_false (fun ne => ne rfl) tooFar

/-- The number that is written over the field of a site keeps the bits outside the displacement. -/
lemma testBit_of_patch (reads : code.read32? site.offset = some inst)
    (patched : site.patch code dest = .ok code') (reads' : code'.read32? site.offset = some value)
    (inWord : i < 32) (outside : i < site.kind.firstBit ∨
      site.kind.firstBit + site.kind.width ≤ i) :
    value.toNat.testBit i = inst.toNat.testBit i := by
  obtain ⟨offset, kind⟩ := site
  dsimp only at reads reads' outside
  by_cases counted : kind = .rel32
  · -- every bit belongs to a displacement of 32 bits
    subst counted
    simp only [SiteKind.firstBit, SiteKind.width] at outside
    omega
  · rw [patch_counted counted reads] at patched
    split at patched
    case isFalse => cases patched
    case isTrue inField =>
      have small : (UInt32.ofInt (((dest : Int) - offset).tdiv 4 % 2 ^ fieldBits kind)).toNat <
        2 ^ kind.width := by
        cases kind with
        | rel32 => exact absurd rfl counted
        | imm26 => exact (bmod_toNat_ofInt 25 (by decide) inField).1
        | imm19 => exact (bmod_toNat_ofInt 18 (by decide) inField).1
      cases writes : code.patch32? offset (placeField kind inst
          (UInt32.ofInt (((dest : Int) - offset).tdiv 4 % 2 ^ fieldBits kind))) with
      | none =>
        rw [writes] at patched
        cases patched
      | some written =>
        rw [writes] at patched
        cases patched
        rw [CodeBuffer.read32?_of_patch32? writes] at reads'
        cases reads'
        exact testBit_placeField counted inst small inWord outside

lemma exists_patch (patchable : site.Patchable code dest)
    (reaches : site.kind.Reaches site.offset dest) :
    ∃ code', site.patch code dest = .ok code' ∧ site.Patches code dest code' := by
  obtain ⟨inside, fits⟩ := patchable
  obtain ⟨inst, reads⟩ := code.exists_read32? inside
  rcases site.patch_cases code dest inside with ⟨value, code', patched, writes, aims⟩ | tooFar
  · refine ⟨code', patched, patches_of_patch32? reads writes (aims reaches)
      fun i inWord outside => ?_⟩
    exact testBit_of_patch reads patched (CodeBuffer.read32?_of_patch32? writes) inWord outside
  · exact absurd tooFar ((patch_ne_outOfRange_iff inside reaches).2 fits)

lemma exists_patch_error (not : ¬site.Patchable code dest)
    (reaches : site.kind.Reaches site.offset dest) :
    ∃ e, site.patch code dest = .error e ∧
    (site.offset + 4 ≤ code.offset → e = .outOfRange site.offset dest) := by
  by_cases inside : site.offset + 4 ≤ code.offset
  · have tooFar : ¬site.kind.Fits site.offset dest := fun fits => not ⟨inside, fits⟩
    refine ⟨.outOfRange site.offset dest, ?_, fun _ => rfl⟩
    by_contra ne
    exact tooFar ((patch_ne_outOfRange_iff inside reaches).1 ne)
  · have writes (value : UInt32) : code.patch32? site.offset value = none := if_neg inside
    have reads := code.read32?_of_outside inside
    obtain ⟨offset, kind⟩ := site
    dsimp only at reads writes inside
    cases kind with
    | rel32 =>
      rw [patch_rel32, writes]
      split <;> exact ⟨_, rfl, fun within => absurd within inside⟩
    | imm26 | imm19 =>
      simp only [patch, reads]
      split <;> exact ⟨_, rfl, fun within => absurd within inside⟩

end BranchSite

/-! ### Tables -/

namespace FixupTable

variable {t : FixupTable} {code code' : CodeBuffer} {sites : List (BranchSite × JumpTarget)}
  {x : BranchSite × JumpTarget}

/-- A branch can be patched: its target is bound, its field is inside the code, and the displacement
to the offset of its target fits the field. -/
def Patchable (t : FixupTable) (code : CodeBuffer) (branch : BranchSite × JumpTarget) : Prop :=
  ∃ dest, t.offsetOf? branch.2 = some dest ∧ branch.1.Patchable code dest

/-- Just these branches have been patched: each of them goes to the offset of its target, and every
bit outside their displacements is as it was. -/
structure Patches (t : FixupTable) (sites : List (BranchSite × JumpTarget))
    (code code' : CodeBuffer) : Prop where
  offset : code'.offset = code.offset
  lands : ∀ x ∈ sites, ∃ dest : Nat, t.offsetOf? x.2 = some dest ∧
    x.1.destination? code' = some (dest : Int)
  bits : ∀ place, (∀ x ∈ sites, ¬x.1.Covers place) → code'.bit? place = code.bit? place

/-- Branches that share no byte; those that count in instructions stand at instructions and go to
instructions. -/
structure WellPlaced (t : FixupTable) (sites : List (BranchSite × JumpTarget)) : Prop where
  apart : sites.Pairwise fun x y => x.1.Apart y.1
  aligned : ∀ x ∈ sites, ∀ dest, t.offsetOf? x.2 = some dest → x.1.kind.Reaches x.1.offset dest

/-- Whether a branch can be patched does not depend on what the code is. -/
lemma patchable_congr (same : code'.offset = code.offset) (x : BranchSite × JumpTarget) :
    t.Patchable code' x ↔ t.Patchable code x := by
  unfold Patchable BranchSite.Patchable
  rw [same]

/-- A branch that can be patched is patched before the others. -/
lemma resolveSites_cons_of_patchable (patchable : t.Patchable code x)
    (aligned : ∀ dest, t.offsetOf? x.2 = some dest → x.1.kind.Reaches x.1.offset dest)
    (sites : List (BranchSite × JumpTarget)) :
    ∃ dest code₁, t.offsetOf? x.2 = some dest ∧ x.1.Patches code dest code₁ ∧
      t.resolveSites (x :: sites) code = t.resolveSites sites code₁ := by
  obtain ⟨dest, bound, here⟩ := patchable
  obtain ⟨code₁, patched, patches⟩ := BranchSite.exists_patch here (aligned dest bound)
  refine ⟨dest, code₁, bound, patches, ?_⟩
  rw [resolveSites, bound]
  dsimp only
  rw [patched]

/-- A branch that cannot be patched ends it; if its target is bound and it is inside the code, the
target is too far away. -/
lemma resolveSites_cons_of_not_patchable (not : ¬t.Patchable code x)
    (aligned : ∀ dest, t.offsetOf? x.2 = some dest → x.1.kind.Reaches x.1.offset dest)
    (sites : List (BranchSite × JumpTarget)) :
    ∃ e, t.resolveSites (x :: sites) code = (.error e, code) ∧ ∀ dest, t.offsetOf? x.2 = some dest →
      x.1.offset + 4 ≤ code.offset → e = .outOfRange x.1.offset dest := by
  rw [resolveSites]
  cases bound : t.offsetOf? x.2 with
  | none => exact ⟨_, rfl, nofun⟩
  | some dest =>
    have here : ¬x.1.Patchable code dest := fun patchable => not ⟨dest, bound, patchable⟩
    obtain ⟨e, failed, tooFar⟩ := BranchSite.exists_patch_error here (aligned dest bound)
    dsimp only
    rw [failed]
    refine ⟨e, rfl, ?_⟩
    rintro _ ⟨⟩
    exact tooFar

/-- A patched branch stays patched while others that share no byte with it are. -/
lemma Patches.cons {dest : Nat} {code₁ : CodeBuffer} (bound : t.offsetOf? x.2 = some dest)
    (here : x.1.Patches code dest code₁) (later : t.Patches sites code₁ code')
    (kept : code'.read32? x.1.offset = code₁.read32? x.1.offset) :
    t.Patches (x :: sites) code code' where
  offset := later.offset.trans here.offset
  lands := by
    refine List.forall_mem_cons.2 ⟨⟨dest, bound, ?_⟩, later.lands⟩
    rw [BranchSite.destination?, kept]
    exact here.lands
  bits place outside := by
    obtain ⟨own, others⟩ := List.forall_mem_cons.1 outside
    exact (later.bits place others).trans (here.bits place own)

/-- What patching sites in turn comes to: those before the first that cannot be patched are patched.
The fields of sites that are apart from them are read as before. -/
lemma resolveSites_spec (placed : t.WellPlaced sites) (code : CodeBuffer) :
    ∃ before after outcome code', sites = before ++ after ∧
    t.resolveSites sites code = (outcome, code') ∧
      (∀ x ∈ before, t.Patchable code x) ∧ t.Patches before code code' ∧
      (∀ j, (∀ x ∈ before, j + 4 ≤ x.1.offset ∨ x.1.offset + 4 ≤ j) →
        code'.read32? j = code.read32? j) ∧
      (outcome = .ok () ∧ after = [] ∨ ∃ e x rest, outcome = .error e ∧ after = x :: rest ∧
        ¬t.Patchable code x ∧
        ∀ dest, t.offsetOf? x.2 = some dest → x.1.offset + 4 ≤ code.offset →
          e = .outOfRange x.1.offset dest) := by
  induction sites generalizing code with
  | nil =>
    exact ⟨[], [], .ok (), code, rfl, rfl, nofun, ⟨rfl, nofun, fun _ _ => rfl⟩, fun _ _ => rfl,
      .inl ⟨rfl, rfl⟩⟩
  | cons x sites ih =>
    obtain ⟨apart, others⟩ := List.pairwise_cons.1 placed.apart
    obtain ⟨here, later⟩ := List.forall_mem_cons.1 placed.aligned
    by_cases patchable : t.Patchable code x
    · obtain ⟨dest, code₁, bound, patches, goesOn⟩ :=
        resolveSites_cons_of_patchable patchable here sites
      obtain ⟨before, after, outcome, code', split, ran, ready, done, reads, ending⟩ :=
        ih ⟨others, later⟩ code₁
      have away : ∀ y ∈ before, x.1.offset + 4 ≤ y.1.offset ∨ y.1.offset + 4 ≤ x.1.offset :=
        fun y mem =>
        apart y (split ▸ List.mem_append_left _ mem)
      refine ⟨x :: before, after, outcome, code', by rw [split]; rfl, goesOn.trans ran, ?_,
        .cons bound patches done (reads _ away), fun j aside => ?_, ?_⟩
      · exact List.forall_mem_cons.2 ⟨patchable, fun y mem => (patchable_congr patches.offset y).1
          (ready y mem)⟩
      · obtain ⟨own, rest⟩ := List.forall_mem_cons.1 aside
        exact (reads j rest).trans (patches.reads j own)
      · refine ending.imp_right ?_
        rintro ⟨e, y, rest, failed, next, not, tooFar⟩
        exact ⟨e, y, rest, failed, next,
          fun ready => not ((patchable_congr patches.offset y).2 ready), patches.offset ▸ tooFar⟩
    · obtain ⟨e, failed, tooFar⟩ := resolveSites_cons_of_not_patchable patchable here sites
      exact ⟨[], x :: sites, .error e, code, rfl, failed, nofun, ⟨rfl, nofun, fun _ _ => rfl⟩,
        fun _ _ => rfl, .inr ⟨e, x, sites, rfl, rfl, patchable, tooFar⟩⟩

/-- Sites in the order of the code, each with a field of its own inside it and a target that is
bound. -/
structure Resolvable (t : FixupTable) (code : CodeBuffer) (sites : List (BranchSite × JumpTarget)) :
    Prop where
  apart : sites.Pairwise fun x y => x.1.offset + 4 ≤ y.1.offset
  inside : ∀ x ∈ sites, x.1.offset + 4 ≤ code.offset
  bound : ∀ x ∈ sites, ∃ dest, t.offsetOf? x.2 = some dest ∧ x.1.kind.Reaches x.1.offset dest

/-- Patching resolves all such branches, or meets one whose target is too far away. -/
lemma resolveSites_cases (h : t.Resolvable code sites) :
    (∃ code', t.resolveSites sites code = (.ok (), code') ∧ t.Patches sites code code') ∨
      ∃ offset dest code', t.resolveSites sites code =
        (.error (.outOfRange offset dest), code') := by
  have placed : t.WellPlaced sites := by
    refine ⟨h.apart.imp Or.inl, fun x mem dest bound => ?_⟩
    obtain ⟨dest', bound', reaches⟩ := h.bound x mem
    cases bound.symm.trans bound'
    exact reaches
  obtain ⟨before, after, outcome, code', split, ran, -, patches, -, ending⟩ :=
    resolveSites_spec placed code
  rcases ending with ⟨rfl, rfl⟩ | ⟨e, x, rest, rfl, rfl, -, tooFar⟩
  · rw [List.append_nil] at split
    exact .inl ⟨code', ran, split ▸ patches⟩
  · have mem : x ∈ sites := split ▸ List.mem_append_right _ List.mem_cons_self
    obtain ⟨dest, bound, -⟩ := h.bound x mem
    cases tooFar dest bound (h.inside x mem)
    exact .inr ⟨_, dest, code', ran⟩

/-! ### Histories of a table -/

/-- What is done to a table before it is resolved. -/
inductive Call where
  | add (site : BranchSite) (target : JumpTarget)
  | bind (target : JumpTarget) (offset : Nat)
  deriving DecidableEq, Repr

/-- Does one thing to a table. -/
def apply (t : FixupTable) : Call → FixupTable
  | .add site target => t.add site target
  | .bind target offset => t.bind target offset

/-- The table after some calls. -/
def ofCalls (calls : List Call) : FixupTable := calls.foldl apply {}

/-- The branches that calls record, in order. -/
def recorded (calls : List Call) : List (BranchSite × JumpTarget) :=
  calls.filterMap fun
    | .add site target => some (site, target)
    | .bind _ _ => none

/-- The first offset that calls bind a target to. -/
def firstBound? (calls : List Call) (target : JumpTarget) : Option Nat :=
  calls.findSome? fun
    | .add _ _ => none
    | .bind other offset => if other = target then some offset else none

lemma ofCalls_snoc (calls : List Call) (call : Call) :
    ofCalls (calls ++ [call]) = (ofCalls calls).apply call := by
  rw [ofCalls, List.foldl_append]
  rfl

lemma sites_ofCalls (calls : List Call) : (ofCalls calls).sites.toList = recorded calls := by
  induction calls using List.reverseRecOn with
  | nil => rfl
  | append_singleton calls call ih =>
    rw [ofCalls_snoc, recorded, List.filterMap_append, ← recorded, ← ih]
    cases call with
    | add site target => exact Array.toList_push
    | bind target offset =>
      rw [apply, bind]
      split <;> exact (List.append_nil _).symm

lemma offsetOf?_ofCalls (calls : List Call) (target : JumpTarget) :
    (ofCalls calls).offsetOf? target = firstBound? calls target := by
  induction calls using List.reverseRecOn with
  | nil => rfl
  | append_singleton calls call ih =>
    rw [ofCalls_snoc, firstBound?, List.findSome?_append, ← firstBound?, ← ih]
    cases call with
    | add site other => exact (Option.or_none).symm
    | bind other offset =>
      rw [apply, List.findSome?_singleton]
      dsimp only
      by_cases same : other = target
      · subst same
        rw [if_pos rfl]
        cases bound : (ofCalls calls).offsetOf? other with
        | none => exact offsetOf?_bind_self bound offset
        | some first => exact offsetOf?_bind_of_bound bound other offset
      · rw [if_neg same, Option.or_none]
        exact offsetOf?_bind_of_ne (Ne.symm same) offset

/-! ### Resolving a table -/

/-- Two branches to one target, bound twice: from the second instruction the first offset is just in
reach, from the first instruction it is one instruction too far. -/
def brink : FixupTable :=
  ofCalls [.add ⟨4, .imm19⟩ .exit, .bind .exit (2 ^ 20), .add ⟨0, .imm19⟩ .exit, .bind .exit 0]

end FixupTable

end StackMachine
