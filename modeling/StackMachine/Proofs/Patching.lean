import Mathlib.Tactic.Common
import StackMachine.Code.Fixup

/-!
# Patched branches

A site that has been patched is read back as a branch to its target (`BranchSite.destination?`), and
the fields of other sites are left alone.  A site inside the code is patched unless its displacement
is too long (`BranchSite.patch_cases`).
-/

namespace StackMachine

namespace CodeBuffer

variable {b patched : CodeBuffer} {at_ : Nat} {value : UInt32}

lemma getElem?_overwrite (bytes : Array UInt8) (i j : Nat) (new : List UInt8)
    (apart : j < i ∨ i + new.length ≤ j) : (overwrite bytes i new)[j]? = bytes[j]? := by
  induction new generalizing bytes i with
  | nil => rfl
  | cons byte rest ih =>
    rw [List.length_cons] at apart
    rw [overwrite, ih _ _ (by omega), Array.getElem?_setIfInBounds_ne (by omega)]

/-- A field that shares no byte with a patched one stays. -/
lemma read32?_of_patch32?_of_apart (h : b.patch32? at_ value = some patched) {j : Nat}
    (apart : j + 4 ≤ at_ ∨ at_ + 4 ≤ j) : patched.read32? j = b.read32? j := by
  unfold patch32? at h
  split at h
  · cases h
    have stays (k : Nat) (near : j ≤ k ∧ k < j + 4) :
        (overwrite b.bytes at_ (bytes32 value))[k]? = b.bytes[k]? :=
      getElem?_overwrite _ _ _ _ (by simp only [bytes32, List.length_cons, List.length_nil]; omega)
    simp only [read32?]
    rw [stays j (by omega), stays (j + 1) (by omega), stays (j + 2) (by omega),
      stays (j + 3) (by omega)]
  · cases h

/-- A field inside the code can be patched. -/
lemma exists_patch32? (inside : at_ + 4 ≤ b.offset) (value : UInt32) :
    ∃ patched, b.patch32? at_ value = some patched := ⟨_, if_pos inside⟩

lemma exists_read32? (inside : at_ + 4 ≤ b.offset) : ∃ inst, b.read32? at_ = some inst := by
  obtain ⟨patched, patches⟩ := b.exists_patch32? inside 0
  have same := b.isSome_patch32? at_ 0
  rw [patches] at same
  exact Option.isSome_iff_exists.1 same.symm

end CodeBuffer

/-- The displacement that a field encodes, in bytes from the start of the field. -/
def SiteKind.displacement : SiteKind → UInt32 → Int
  | .rel32, field => 4 + (field.toNat : Int).bmod (2 ^ 32)
  | .imm26, inst => 4 * ((inst.toNat % 2 ^ 26 : Nat) : Int).bmod (2 ^ 26)
  | .imm19, inst => 4 * ((inst.toNat / 2 ^ 5 % 2 ^ 19 : Nat) : Int).bmod (2 ^ 19)

/-- A displacement that counts instructions reaches whole instructions only. -/
def SiteKind.Reaches (kind : SiteKind) (offset dest : Nat) : Prop :=
  kind = .rel32 ∨ 4 ∣ offset ∧ 4 ∣ dest

namespace BranchSite

variable {site : BranchSite} {code code' : CodeBuffer} {dest : Nat} {field : UInt32} {n : Int}
  {kind : SiteKind}

/-- Where the branch at a site goes. -/
def destination? (site : BranchSite) (code : CodeBuffer) : Option Int :=
  (code.read32? site.offset).map fun field => site.offset + site.kind.displacement field

/-- The low 26 bits of an instruction after they have been replaced. -/
lemma placeField_imm26 (inst : UInt32) (small : field.toNat < 2 ^ 26) :
    (placeField .imm26 inst field).toNat % 2 ^ 26 = field.toNat := by
  have mask : UInt32.size - 1 - UInt32.toNat 0x03FFFFFF = 63 <<< 26 := by decide
  have value : (placeField .imm26 inst field).toNat = inst.toNat &&& 63 <<< 26 ||| field.toNat := by
    show (inst &&& ~~~0x03FFFFFF ||| field).toNat = _
    rw [UInt32.toNat_or, UInt32.toNat_and, UInt32.toNat_not, mask]
  refine Nat.eq_of_testBit_eq fun i => ?_
  simp only [value, Nat.testBit_mod_two_pow, Nat.testBit_or, Nat.testBit_and, Nat.testBit_shiftLeft]
  by_cases inside : i < 26
  · simp [inside, Nat.not_le.2 inside]
  · have high : field.toNat.testBit i = false :=
      Nat.testBit_lt_two_pow
        (Nat.lt_of_lt_of_le small (Nat.pow_le_pow_right (by decide) (by omega)))
    simp [inside, high]

/-- The 19 bits from bit 5 of an instruction after they have been replaced. -/
lemma placeField_imm19 (inst : UInt32) (small : field.toNat < 2 ^ 19) :
    (placeField .imm19 inst field).toNat / 2 ^ 5 % 2 ^ 19 = field.toNat := by
  have mask : UInt32.size - 1 - ((0x7FFFF : UInt32) <<< 5).toNat = 255 <<< 24 ||| 31 % 2 ^ 5 := by
    decide
  have value : (placeField .imm19 inst field).toNat =
      inst.toNat &&& (255 <<< 24 ||| 31 % 2 ^ 5) ||| field.toNat <<< 5 % 2 ^ 32 := by
    rw [placeField, UInt32.toNat_or, UInt32.toNat_and, UInt32.toNat_not, mask,
      UInt32.toNat_shiftLeft]
    rfl
  refine Nat.eq_of_testBit_eq fun i => ?_
  simp only [value, Nat.testBit_div_two_pow, Nat.testBit_mod_two_pow, Nat.testBit_or,
    Nat.testBit_and, Nat.testBit_shiftLeft]
  by_cases inside : i < 19
  · have low : ¬24 ≤ i + 5 := by omega
    have above : ¬i + 5 < 5 := by omega
    have word : i + 5 < 32 := by omega
    simp [inside, low, above, word]
  · have high : field.toNat.testBit i = false :=
      Nat.testBit_lt_two_pow
        (Nat.lt_of_lt_of_le small (Nat.pow_le_pow_right (by decide) (by omega)))
    simp [inside, high]

/-- A number as a word, and back. -/
lemma toNat_ofInt (n : Int) : ((UInt32.ofInt n).toNat : Int) = n % 2 ^ 32 := by
  have nonneg := Int.emod_nonneg n (by decide : (2 : Int) ^ 32 ≠ 0)
  have small := Int.emod_lt_of_pos n (by decide : (0 : Int) < 2 ^ 32)
  simp [UInt32.ofInt]
  omega

/-- A number in range is its own representative. -/
lemma bmod_eq {bits : Nat} (inRange : -2 ^ bits ≤ n ∧ n < 2 ^ bits) :
    n.bmod (2 ^ (bits + 1)) = n := by
  have double : ((2 ^ (bits + 1) : Nat) : Int) = 2 ^ bits * 2 := by
    rw [Int.natCast_pow]; exact Int.pow_succ _ _
  refine Int.bmod_eq_of_le ?_ ?_ <;> rw [double] <;> omega

/-- A number of instructions in a field of so many bits. -/
lemma bmod_toNat_ofInt (bits : Nat) (narrow : bits + 1 ≤ 32)
    (inRange : -2 ^ bits ≤ n ∧ n < 2 ^ bits) :
    (UInt32.ofInt (n % 2 ^ (bits + 1))).toNat < 2 ^ (bits + 1) ∧
      ((UInt32.ofInt (n % 2 ^ (bits + 1))).toNat : Int).bmod (2 ^ (bits + 1)) = n := by
  have positive : (0 : Int) < 2 ^ (bits + 1) := Int.pow_pos (by decide)
  have cast : ((2 ^ (bits + 1) : Nat) : Int) = 2 ^ (bits + 1) := Int.natCast_pow 2 _
  have nonneg := Int.emod_nonneg n (Int.ne_of_gt positive)
  have small := Int.emod_lt_of_pos n positive
  have fits : (2 : Int) ^ (bits + 1) ≤ 2 ^ 32 := by
    have le := Nat.pow_le_pow_right (by decide : 0 < 2) narrow
    rw [← cast]
    exact Int.ofNat_le.2 le
  have value : ((UInt32.ofInt (n % 2 ^ (bits + 1))).toNat : Int) = n % 2 ^ (bits + 1) := by
    rw [toNat_ofInt, Int.emod_eq_of_lt nonneg (Int.lt_of_lt_of_le small fits)]
  refine ⟨Int.ofNat_lt.1 ?_, ?_⟩
  · rw [value, cast]
    exact small
  · rw [value, ← cast, Int.emod_bmod]
    exact bmod_eq inRange

/-- A number of instructions can be put into a field. -/
def InField (kind : SiteKind) (n : Int) : Prop :=
  -2 ^ (fieldBits kind - 1) ≤ n ∧ n < 2 ^ (fieldBits kind - 1)

instance (kind : SiteKind) (n : Int) :
    Decidable (InField kind n) := inferInstanceAs (Decidable (_ ∧ _))

/-- A number of instructions is read back from its field. -/
lemma displacement_placeField (counted : kind ≠ .rel32) (inst : UInt32) (inField : InField kind n) :
    kind.displacement (placeField kind inst (UInt32.ofInt (n % 2 ^ fieldBits kind))) = 4 * n := by
  cases kind with
  | rel32 => exact absurd rfl counted
  | imm26 =>
    obtain ⟨small, value⟩ := bmod_toNat_ofInt 25 (by decide) inField
    have field := placeField_imm26 inst small
    exact congrArg (4 * ·) ((congrArg (fun k : Nat => (k : Int).bmod (2 ^ 26)) field).trans value)
  | imm19 =>
    obtain ⟨small, value⟩ := bmod_toNat_ofInt 18 (by decide) inField
    have field := placeField_imm19 inst small
    exact congrArg (4 * ·) ((congrArg (fun k : Nat => (k : Int).bmod (2 ^ 19)) field).trans value)

/-- What patching a displacement in bytes comes to. -/
lemma patch_rel32 (offset : Nat) (code : CodeBuffer) (dest : Nat) :
    patch ⟨offset, .rel32⟩ code dest = if -2 ^ 31 ≤ (dest : Int) - (offset + 4) ∧
      (dest : Int) - (offset + 4) < 2 ^ 31 then
        (code.patch32? offset (UInt32.ofInt (dest - (offset + 4)))).elim
          (.error (.badSite offset)) .ok
      else .error (.outOfRange offset dest) := by
  simp only [patch]
  split
  · cases code.patch32? offset _ <;> rfl
  · rfl

/-- What patching a displacement in instructions comes to. -/
lemma patch_counted (counted : kind ≠ .rel32) {offset : Nat}
    {inst : UInt32} (reads : code.read32? offset = some inst) (dest : Nat) :
    patch ⟨offset, kind⟩ code dest =
      if InField kind (((dest : Int) - offset).tdiv 4) then
        (code.patch32? offset (placeField kind inst
          (UInt32.ofInt (((dest : Int) - offset).tdiv 4 % 2 ^ fieldBits kind)))).elim
          (.error (.badSite offset)) .ok
      else .error (.outOfRange offset dest) := by
  by_cases inField : InField kind (((dest : Int) - offset).tdiv 4)
  · rw [if_pos inField]
    unfold InField at inField
    cases kind with
    | rel32 => exact absurd rfl counted
    | imm26 | imm19 =>
      simp only [patch, reads]
      rw [if_pos inField]
      cases code.patch32? offset _ <;> rfl
  · rw [if_neg inField]
    unfold InField at inField
    cases kind with
    | rel32 => exact absurd rfl counted
    | imm26 | imm19 =>
      simp only [patch]
      rw [if_neg inField]
      rfl

/-- A site inside the code is patched, unless its target is too far away. -/
lemma patch_cases (site : BranchSite) (code : CodeBuffer) (dest : Nat)
    (inside : site.offset + 4 ≤ code.offset) :
    (∃ value code', site.patch code dest = .ok code' ∧
      code.patch32? site.offset value = some code' ∧
        (site.kind.Reaches site.offset dest → site.offset + site.kind.displacement value = dest)) ∨
      site.patch code dest = .error (.outOfRange site.offset dest) := by
  obtain ⟨offset, kind⟩ := site
  dsimp only at inside
  obtain ⟨inst, reads⟩ := code.exists_read32? inside
  by_cases counted : kind = .rel32
  · subst counted
    rw [patch_rel32]
    split
    · next inRange =>
      obtain ⟨code', writes⟩ := code.exists_patch32? inside (UInt32.ofInt (dest - (offset + 4)))
      refine .inl ⟨_, code', by rw [writes]; rfl, writes, fun _ => ?_⟩
      have value : Int.bmod ((UInt32.ofInt (dest - (offset + 4))).toNat : Int) (2 ^ 32) =
        dest - (offset + 4) := by
        rw [toNat_ofInt]
        exact (Int.emod_bmod _ (2 ^ 32)).trans (bmod_eq inRange)
      show (offset : Int) + (4 + _) = dest
      rw [value]
      omega
    · exact .inr rfl
  · rw [patch_counted counted reads]
    split
    · next inField =>
      obtain ⟨code', writes⟩ := code.exists_patch32? inside (placeField kind inst
        (UInt32.ofInt (((dest : Int) - offset).tdiv 4 % 2 ^ fieldBits kind)))
      refine .inl ⟨_, code', by rw [writes]; rfl, writes, fun reaches => ?_⟩
      obtain ⟨start, finish⟩ := reaches.resolve_left counted
      dsimp only at start finish ⊢
      have exact_ : (4 : Int) ∣ (dest : Int) - offset := by omega
      rw [displacement_placeField counted inst inField, Int.mul_tdiv_cancel' exact_]
      omega
    · exact .inr rfl

end BranchSite

namespace FixupTable

variable {t : FixupTable}

/-- Binding a target leaves the others alone. -/
lemma offsetOf?_bind_of_ne {target other : JumpTarget} (ne : target ≠ other) (offset : Nat) :
    (t.bind other offset).offsetOf? target = t.offsetOf? target := by
  unfold bind
  split
  · rfl
  · have apart : List.lookup target [(other, offset)] = none := by
      simp [List.lookup_cons, beq_false_of_ne ne]
    rw [offsetOf?, offsetOf?, List.lookup_append, apart, Option.or_none]

end FixupTable

end StackMachine
